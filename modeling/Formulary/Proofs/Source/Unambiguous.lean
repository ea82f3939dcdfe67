import Formulary.Proofs.Source.Acceptance
import Formulary.Proofs.Source.Derivation

namespace Formulary

/-!
# The grammar is unambiguous

Tokens have at most one derivation.  A phrase ends where the next token does not
extend it, so the parts of a phrase are found from the left, one after the
other.  Sums and terms lean to the left: their operands are found from the left
first, and the last operator is the one that the outermost rule holds.
-/

namespace Grammar

theorem ends_nil
    {category : Category} :
    Ends category [] := by
  intro token isFirst
  cases isFirst

/-- Operands with an operator in front of each but the first. -/
def joined (first : Tokens) : List (Located Token × Tokens) → Tokens
  | [] => first
  | (operator, next) :: links => first ++ operator :: joined next links

theorem joined_concat
    (first : Tokens)
    (links : List (Located Token × Tokens))
    (operator : Located Token)
    (last : Tokens) :
    joined first (links ++ [(operator, last)]) =
      joined first links ++ operator :: last := by
  induction links generalizing first with
  | nil => rfl
  | cons link links inductionHypothesis =>
      simp only [List.cons_append, joined, inductionHypothesis,
        List.append_assoc]

/--
The operands of a category that leans to the left, and the operators between
them.
-/
def Category.operands? : Category → Option (Category × (BinaryOp → Bool))
  | .sum => some (.term, Parse.isAdditive)
  | .term => some (.power, Parse.isMultiplicative)
  | _ => none

/-- An operator between operands does not extend the operand in front of it. -/
theorem Category.operands?_stops
    {category operand : Category}
    {belongs : BinaryOp → Bool}
    (leans : category.operands? = some (operand, belongs))
    {op : BinaryOp}
    (member : belongs op = true) :
    operand.extendedBy (.operator op) = false := by
  cases category <;> cases leans <;> cases op <;> first
    | rfl
    | cases member

/-- A comparison does not extend the sum in front of it. -/
theorem sum_extendedBy_comparison
    {op : BinaryOp}
    (compares : op.isComparison = true) :
    Category.sum.extendedBy (.operator op) = false := by
  cases op <;> first
    | rfl
    | cases compares

/-- An operator of a class, and an operand behind it. -/
def IsLink
    (operand : Category)
    (belongs : BinaryOp → Bool)
    (link : Located Token × Tokens) :
    Prop :=
  (∃ op, link.1.item = .operator op ∧ belongs op = true) ∧ ∃ trees,
    Derives operand link.2 trees

/-- Operands of a category and operators of a class between them. -/
structure Joins
    (operand : Category)
    (belongs : BinaryOp → Bool)
    (first : Tokens)
    (links : List (Located Token × Tokens)) : Prop where
  first : ∃ trees, Derives operand first trees
  links : ∀ link ∈ links, IsLink operand belongs link

section Leaning

variable
  {category operand : Category}
  {belongs : BinaryOp → Bool}

theorem Joins.concat
    {first last : Tokens}
    {links : List (Located Token × Tokens)}
    {op : BinaryOp}
    {position : Position}
    {trees : List Expr}
    (joins : Joins operand belongs first links)
    (member : belongs op = true)
    (ofLast : Derives operand last trees) :
    Joins operand belongs
      first (links ++ [(⟨position, .operator op⟩, last)]) := by
  refine ⟨joins.first, fun link isMember => ?_⟩
  rcases List.mem_append.mp isMember with isEarlier | isLast
  · exact joins.links link isEarlier
  · cases List.mem_singleton.mp isLast
    exact ⟨⟨op, rfl, member⟩, trees, ofLast⟩

/-- A phrase that leans to the left is made of its operands. -/
theorem Derives.operands
    {tokens : Tokens}
    {trees : List Expr}
    (derives : Derives category tokens trees)
    (leans : category.operands? = some (operand, belongs)) :
    ∃ first links,
      tokens = joined first links ∧ Joins operand belongs first links := by
  induction derives with
  | oneTerm ofOperand | onePower ofOperand =>
      cases leans
      exact ⟨_, [], rfl, ⟨_, ofOperand⟩, by simp⟩
  | moreTerms member _ ofOperand inductionHypothesis _
  | morePowers member _ ofOperand inductionHypothesis _ =>
      cases leans
      obtain ⟨first, links, rfl, joins⟩ := inductionHypothesis rfl
      exact ⟨first, _, (joined_concat ..).symm, joins.concat member ofOperand⟩
  | _ => cases leans

/-- The operands are found from the left. -/
theorem Joins.eq
    {first other : Tokens}
    {links others : List (Located Token × Tokens)}
    (joins : Joins operand belongs first links)
    (joinsToo : Joins operand belongs other others)
    (leans : category.operands? = some (operand, belongs))
    (same : joined first links = joined other others) :
    first = other ∧ links = others := by
  have stops : ∀ {link : Located Token × Tokens} {rest : Tokens},
      IsLink operand belongs link → Ends operand (link.1 :: rest) := by
    rintro ⟨token, tokens⟩ rest ⟨⟨op, isOp, member⟩, -⟩
    exact ends_cons (isOp ▸ Category.operands?_stops leans member)
  induction links generalizing first other others with
  | nil =>
      obtain ⟨⟨_, ofFirst⟩, -⟩ := joins
      obtain ⟨⟨_, ofOther⟩, areLinks⟩ := joinsToo
      cases others with
      | nil => exact ⟨same, rfl⟩
      | cons link others =>
          rw [joined, joined, ← List.append_nil first] at same
          obtain ⟨-, absurdity⟩ :=
            ofFirst.split ofOther ends_nil
              (stops (areLinks _ List.mem_cons_self)) same
          cases absurdity
  | cons link links inductionHypothesis =>
      obtain ⟨⟨_, ofFirst⟩, areLinks⟩ := joins
      obtain ⟨⟨_, ofOther⟩, areLinksToo⟩ := joinsToo
      obtain ⟨isLink, areMore⟩ := List.forall_mem_cons.mp areLinks
      cases others with
      | nil =>
          rw [joined, joined, ← List.append_nil other] at same
          obtain ⟨-, absurdity⟩ :=
            ofFirst.split ofOther (stops isLink) ends_nil same
          cases absurdity
      | cons otherLink others =>
          obtain ⟨isLinkToo, areMoreToo⟩ := List.forall_mem_cons.mp areLinksToo
          obtain ⟨rfl, sameRest⟩ :=
            ofFirst.split ofOther (stops isLink) (stops isLinkToo) same
          obtain ⟨sameOperator, sameLinks⟩ := List.cons.inj sameRest
          obtain ⟨sameNext, rfl⟩ :=
            inductionHypothesis ⟨isLink.2, areMore⟩
              ⟨isLinkToo.2, areMoreToo⟩ sameLinks
          exact ⟨rfl, congrArg (· :: _) (Prod.ext sameOperator sameNext)⟩

variable
  {before after others rest : Tokens}
  {left right otherLeft otherRight : List Expr}
  {position place : Position}
  {op otherOp : BinaryOp}

/--
The last operator of a phrase that leans to the left is found in one place.
-/
theorem Derives.lastOperator
    (leans : category.operands? = some (operand, belongs))
    (ofLeft : Derives category before left)
    (member : belongs op = true)
    (ofRight : Derives operand after right)
    (ofOtherLeft : Derives category others otherLeft)
    (memberToo : belongs otherOp = true)
    (ofOtherRight : Derives operand rest otherRight)
    (same :
      before ++ ⟨position, .operator op⟩ :: after =
        others ++ ⟨place, .operator otherOp⟩ :: rest) :
    before = others ∧ position = place ∧ op = otherOp ∧ after = rest := by
  obtain ⟨first, links, rfl, joins⟩ := ofLeft.operands leans
  obtain ⟨other, otherLinks, rfl, joinsToo⟩ := ofOtherLeft.operands leans
  rw [← joined_concat, ← joined_concat] at same
  obtain ⟨rfl, sameLinks⟩ :=
    (joins.concat member ofRight).eq
      (joinsToo.concat memberToo ofOtherRight) leans same
  obtain ⟨rfl, sameLast⟩ := List.append_inj' sameLinks rfl
  cases sameLast
  exact ⟨rfl, rfl, rfl, rfl⟩

/-- A single operand holds no operator of the class. -/
theorem Derives.no_lastOperator
    (leans : category.operands? = some (operand, belongs))
    (ofOperand : Derives operand rest otherRight)
    (ofLeft : Derives category before left)
    (member : belongs op = true)
    (ofRight : Derives operand after right)
    (same : rest = before ++ ⟨position, .operator op⟩ :: after) :
    False := by
  obtain ⟨first, links, rfl, joins⟩ := ofLeft.operands leans
  rw [← joined_concat] at same
  have alone : Joins operand belongs rest [] := ⟨⟨_, ofOperand⟩, by simp⟩
  obtain ⟨-, noLinks⟩ := alone.eq (joins.concat member ofRight) leans same
  simp at noLinks

end Leaning

/-- A phrase does not go on behind a token that does not extend it. -/
theorem Derives.not_continued
    {category : Category}
    {tokens others rest : Tokens}
    {token : Located Token}
    {trees otherTrees : List Expr}
    (derives : Derives category tokens trees)
    (derivesToo : Derives category others otherTrees)
    (stops : category.extendedBy token.item = false)
    (same : tokens = others ++ token :: rest) :
    False := by
  rw [← List.append_nil tokens] at same
  obtain ⟨-, absurdity⟩ :=
    derives.split derivesToo ends_nil (ends_cons stops) same
  cases absurdity

namespace Derivation

theorem Phrase.tokens_ne_nil
    {category : Category}
    (phrase : Phrase category) :
    phrase.tokens ≠ [] :=
  List.length_pos_iff.mp phrase.derives.length_pos

theorem Phrase.append_ne_singleton
    {category : Category}
    (phrase : Phrase category)
    {closing token : Located Token} :
    phrase.tokens ++ [closing] ≠ [token] := by
  intro same
  have sameLength := congrArg List.length same
  simp [phrase.tokens_ne_nil] at sameLength

/-- Two phrases in front of tokens that do not extend them. -/
theorem Phrase.split
    {category : Category}
    (phrase other : Phrase category)
    {token next : Located Token}
    {rest after : Tokens}
    (stops : category.extendedBy token.item = false)
    (stopsToo : category.extendedBy next.item = false)
    (same : phrase.tokens ++ token :: rest = other.tokens ++ next :: after) :
    phrase.tokens = other.tokens ∧ token :: rest = next :: after :=
  phrase.derives.split other.derives (ends_cons stops) (ends_cons stopsToo) same

/-- Subscripts do not start with a parenthesis. -/
theorem Phrase.not_opened
    (indices : Phrase .subscripts)
    {opening : Position}
    {rest : Tokens} :
    indices.tokens ≠ ⟨opening, .mark .openParen⟩ :: rest := by
  intro same
  obtain ⟨bracket, others, shape⟩ := indices.derives.opens
  cases shape.symm.trans same

/-- A derivation of a phrase is found from its tokens. -/
theorem Phrase.eq_of_tokens
    {category : Category}
    (phrase other : Phrase category)
    (same : phrase.tokens = other.tokens) :
    phrase = other := by
  induction phrase with
  | lastItem item ofItem =>
      cases other with
      | lastItem => rw [ofItem _ same]
      | moreItems =>
          exact (item.derives.not_continued (Phrase.derives _) rfl same).elim
  | moreItems item comma others ofItem ofOthers =>
      cases other with
      | lastItem =>
          exact
            ((Phrase.derives _).not_continued item.derives rfl same.symm).elim
      | moreItems =>
          obtain ⟨sameItem, sameRest⟩ := item.split _ rfl rfl same
          cases ofItem _ sameItem
          obtain ⟨sameComma, sameOthers⟩ := List.cons.inj sameRest
          cases sameComma
          rw [ofOthers _ sameOthers]
  | oneSum sum ofSum =>
      cases other with
      | oneSum => rw [ofSum _ same]
      | comparison _ _ _ compares =>
          exact (sum.derives.not_continued (Phrase.derives _)
            (sum_extendedBy_comparison (mem_comparisons.mp compares)) same).elim
  | comparison left position op compares right ofLeft ofRight =>
      cases other with
      | oneSum =>
          exact ((Phrase.derives _).not_continued left.derives
            (sum_extendedBy_comparison (mem_comparisons.mp compares))
            same.symm).elim
      | comparison _ _ _ comparesToo =>
          obtain ⟨sameLeft, sameRest⟩ :=
            left.split _
              (sum_extendedBy_comparison (mem_comparisons.mp compares))
              (sum_extendedBy_comparison (mem_comparisons.mp comparesToo)) same
          cases ofLeft _ sameLeft
          obtain ⟨sameOperator, sameRight⟩ := List.cons.inj sameRest
          cases sameOperator
          rw [ofRight _ sameRight]
  | oneTerm term ofTerm =>
      cases other with
      | oneTerm => rw [ofTerm _ same]
      | moreTerms left _ _ additive right =>
          exact (Derives.no_lastOperator rfl term.derives left.derives
            (mem_additives.mp additive) right.derives same).elim
  | moreTerms left position op additive right ofLeft ofRight =>
      cases other with
      | oneTerm term =>
          exact (Derives.no_lastOperator rfl term.derives left.derives
            (mem_additives.mp additive) right.derives same.symm).elim
      | moreTerms otherLeft _ _ additiveToo otherRight =>
          obtain ⟨sameLeft, rfl, rfl, sameRight⟩ :=
            Derives.lastOperator rfl left.derives
              (mem_additives.mp additive) right.derives
              otherLeft.derives (mem_additives.mp additiveToo)
                otherRight.derives same
          rw [ofLeft _ sameLeft, ofRight _ sameRight]
  | onePower power ofPower =>
      cases other with
      | onePower => rw [ofPower _ same]
      | morePowers left _ _ multiplicative right =>
          exact (Derives.no_lastOperator rfl power.derives left.derives
            (mem_multiplicatives.mp multiplicative) right.derives same).elim
  | morePowers left position op multiplicative right ofLeft ofRight =>
      cases other with
      | onePower power =>
          exact (Derives.no_lastOperator rfl power.derives left.derives
            (mem_multiplicatives.mp multiplicative) right.derives
            same.symm).elim
      | morePowers otherLeft _ _ multiplicativeToo otherRight =>
          obtain ⟨sameLeft, rfl, rfl, sameRight⟩ :=
            Derives.lastOperator rfl left.derives
              (mem_multiplicatives.mp multiplicative)
              right.derives otherLeft.derives
                (mem_multiplicatives.mp multiplicativeToo)
              otherRight.derives same
          rw [ofLeft _ sameLeft, ofRight _ sameRight]
  | oneUnary unary ofUnary =>
      cases other with
      | oneUnary => rw [ofUnary _ same]
      | raised =>
          exact (unary.derives.not_continued (Phrase.derives _) rfl same).elim
  | raised base position exponent ofBase ofExponent =>
      cases other with
      | oneUnary =>
          exact
            ((Phrase.derives _).not_continued base.derives rfl same.symm).elim
      | raised =>
          obtain ⟨sameBase, sameRest⟩ := base.split _ rfl rfl same
          cases ofBase _ sameBase
          obtain ⟨sameOperator, sameExponent⟩ := List.cons.inj sameRest
          cases sameOperator
          rw [ofExponent _ sameExponent]
  | onePrimary primary ofPrimary =>
      cases other with
      | onePrimary => rw [ofPrimary _ same]
      | negated =>
          obtain ⟨first, rest, shape, starts⟩ := primary.derives.head
          cases shape.symm.trans same
          cases starts
  | negated position operand ofOperand =>
      cases other with
      | onePrimary primary =>
          obtain ⟨first, rest, shape, starts⟩ := primary.derives.head
          cases shape.symm.trans same.symm
          cases starts
      | negated =>
          obtain ⟨sameOperator, sameOperand⟩ := List.cons.inj same
          cases sameOperator
          rw [ofOperand _ sameOperand]
  | literal position value =>
      cases other with
      | literal =>
          cases same
          rfl
      | _ => cases same
  | parenthesis opening inner closing ofInner =>
      cases other with
      | parenthesis =>
          obtain ⟨sameOpening, sameRest⟩ := List.cons.inj same
          cases sameOpening
          obtain ⟨sameInner, sameClosing⟩ := List.append_inj' sameRest rfl
          cases sameClosing
          rw [ofInner _ sameInner]
      | _ => cases same
  | name position spelling =>
      cases other with
      | name =>
          cases same
          rfl
      | element _ _ indices =>
          exact (indices.tokens_ne_nil (List.cons.inj same).2.symm).elim
      | _ => cases same
  | emptyCall position spelling opening closing =>
      cases other with
      | emptyCall =>
          cases same
          rfl
      | call _ _ _ items _ =>
          obtain ⟨-, sameRest⟩ := List.cons.inj (List.cons.inj same).2
          exact (items.append_ne_singleton sameRest.symm).elim
      | element _ _ indices =>
          exact (indices.not_opened (List.cons.inj same).2.symm).elim
      | _ => cases same
  | call position spelling opening items closing ofItems =>
      cases other with
      | emptyCall =>
          obtain ⟨-, sameRest⟩ := List.cons.inj (List.cons.inj same).2
          exact (items.append_ne_singleton sameRest).elim
      | call =>
          obtain ⟨sameName, sameCall⟩ := List.cons.inj same
          obtain ⟨sameOpening, sameRest⟩ := List.cons.inj sameCall
          obtain ⟨sameItems, sameClosing⟩ := List.append_inj' sameRest rfl
          cases sameName
          cases sameOpening
          cases sameClosing
          rw [ofItems _ sameItems]
      | element _ _ indices =>
          exact (indices.not_opened (List.cons.inj same).2.symm).elim
      | _ => cases same
  | element position spelling indices ofIndices =>
      cases other with
      | name => exact (indices.tokens_ne_nil (List.cons.inj same).2).elim
      | emptyCall | call =>
          exact (indices.not_opened (List.cons.inj same).2).elim
      | element =>
          obtain ⟨sameName, sameIndices⟩ := List.cons.inj same
          cases sameName
          rw [ofIndices _ sameIndices]
      | _ => cases same
  | lastGroup opening group closing ofGroup =>
      cases other with
      | lastGroup =>
          obtain ⟨sameOpening, sameRest⟩ := List.cons.inj same
          obtain ⟨sameGroup, sameClosing⟩ := List.append_inj' sameRest rfl
          cases sameOpening
          cases sameClosing
          rw [ofGroup _ sameGroup]
      | moreGroups _ otherGroup _ others =>
          obtain ⟨-, noOthers⟩ :=
            group.split otherGroup rfl rfl (List.cons.inj same).2
          exact (others.tokens_ne_nil (List.cons.inj noOthers).2.symm).elim
  | moreGroups opening group closing others ofGroup ofOthers =>
      cases other with
      | lastGroup _ otherGroup _ =>
          obtain ⟨-, noOthers⟩ :=
            group.split otherGroup rfl rfl (List.cons.inj same).2
          exact (others.tokens_ne_nil (List.cons.inj noOthers).2).elim
      | moreGroups _ otherGroup _ otherOthers =>
          obtain ⟨sameOpening, sameRest⟩ := List.cons.inj same
          obtain ⟨sameGroup, sameClosed⟩ :=
            group.split otherGroup rfl rfl sameRest
          obtain ⟨sameClosing, sameOthers⟩ := List.cons.inj sameClosed
          cases sameOpening
          cases sameClosing
          rw [ofGroup _ sameGroup, ofOthers _ sameOthers]

/-! The parts of statements, and where they end. -/

/-- Parameters are found up to the parenthesis that closes them. -/
theorem Params.split
    {params other : Params}
    {closing place : Position}
    {rest after : Tokens}
    (same :
      params.tokens ++ ⟨closing, .mark .closeParen⟩ :: rest =
        other.tokens ++ ⟨place, .mark .closeParen⟩ :: after) :
    params = other ∧ closing = place ∧ rest = after := by
  induction params generalizing other with
  | last position name =>
      cases other with
      | last =>
          cases same
          exact ⟨rfl, rfl, rfl⟩
      | more => cases same
  | more position name comma others inductionHypothesis =>
      cases other with
      | last => cases same
      | more =>
          obtain ⟨sameName, sameRest⟩ := List.cons.inj same
          obtain ⟨sameComma, sameOthers⟩ := List.cons.inj sameRest
          cases sameName
          cases sameComma
          obtain ⟨rfl, rfl, rfl⟩ := inductionHypothesis sameOthers
          exact ⟨rfl, rfl, rfl⟩

/-- A mark that may be left out is there or not by the token that comes next. -/
theorem optional_split
    {mark : Mark}
    {position place : Option Position}
    {token next : Located Token}
    {rest after : Tokens}
    (differs : token.item ≠ .mark mark)
    (differsToo : next.item ≠ .mark mark)
    (same : optional mark position ++ token :: rest =
      optional mark place ++ next :: after) :
    position = place ∧ token :: rest = next :: after := by
  cases position with
  | none =>
      cases place with
      | none => exact ⟨rfl, same⟩
      | some place =>
          cases same
          exact absurd rfl differs
  | some position =>
      cases place with
      | none =>
          cases same
          exact absurd rfl differsToo
      | some place =>
          cases same
          exact ⟨rfl, rfl⟩

/-- A derivation of initializers is found from its tokens. -/
theorem Elements.eq_of_tokens
    {elements other : Elements}
    {close : Mark}
    (closes : close = .closeBracket ∨ close = .closeBrace)
    (same : elements.tokens close = other.tokens close) :
    elements = other := by
  have stops : Category.expression.extendedBy (.mark close) = false := by
    rcases closes with rfl | rfl <;> rfl
  have notComma : close ≠ .comma := by
    rcases closes with rfl | rfl <;> decide
  have notStart : Category.expression.startsWith (.mark close) = false := by
    rcases closes with rfl | rfl <;> rfl
  -- The mark that closes the initializers does not start another one.
  have notClosed : ∀ (others : Elements) {closing : Position},
      others.tokens close ≠ [⟨closing, .mark close⟩] := by
    intro others closing shape
    obtain ⟨first, rest, sameShape, starts⟩ := (others.derives close).head
    cases sameShape.symm.trans shape
    exact Bool.false_ne_true (notStart.symm.trans starts)
  induction elements generalizing other with
  | last item closing =>
      cases other with
      | last =>
          obtain ⟨sameItem, sameClosing⟩ := List.append_inj' same rfl
          cases sameClosing
          rw [item.eq_of_tokens _ sameItem]
      | lastComma =>
          obtain ⟨-, absurdity⟩ := item.split _ stops rfl same
          cases absurdity
      | more =>
          obtain ⟨-, sameRest⟩ := item.split _ stops rfl same
          cases (List.cons.inj sameRest).1
          exact absurd rfl notComma
  | lastComma item comma closing =>
      cases other with
      | last =>
          obtain ⟨-, absurdity⟩ := item.split _ rfl stops same
          cases absurdity
      | lastComma =>
          obtain ⟨sameItem, sameRest⟩ := item.split _ rfl rfl same
          cases sameRest
          rw [item.eq_of_tokens _ sameItem]
      | more _ _ others =>
          obtain ⟨-, sameRest⟩ := item.split _ rfl rfl same
          exact (notClosed others (List.cons.inj sameRest).2.symm).elim
  | more item comma others inductionHypothesis =>
      cases other with
      | last =>
          obtain ⟨-, sameRest⟩ := item.split _ rfl stops same
          cases (List.cons.inj sameRest).1
          exact absurd rfl notComma
      | lastComma =>
          obtain ⟨-, sameRest⟩ := item.split _ rfl rfl same
          exact (notClosed others (List.cons.inj sameRest).2).elim
      | more =>
          obtain ⟨sameItem, sameRest⟩ := item.split _ rfl rfl same
          obtain ⟨sameComma, sameOthers⟩ := List.cons.inj sameRest
          cases sameComma
          rw [item.eq_of_tokens _ sameItem, inductionHypothesis sameOthers]

/-- A point is found up to the parenthesis that closes it. -/
theorem Point.split
    {point other : Point}
    {rest after : Tokens}
    (same : point.tokens ++ rest = other.tokens ++ after) :
    point = other ∧ rest = after := by
  obtain ⟨opening, x, comma, y, closing⟩ := point
  obtain ⟨otherOpening, otherX, otherComma, otherY, otherClosing⟩ := other
  simp only [tokens, List.cons_append, List.append_assoc,
    List.nil_append] at same
  obtain ⟨sameOpening, sameInside⟩ := List.cons.inj same
  obtain ⟨sameX, sameRest⟩ := x.split otherX rfl rfl sameInside
  obtain ⟨sameComma, sameLast⟩ := List.cons.inj sameRest
  obtain ⟨sameY, sameClosed⟩ := y.split otherY rfl rfl sameLast
  cases sameOpening
  cases sameComma
  cases sameClosed
  cases x.eq_of_tokens otherX sameX
  cases y.eq_of_tokens otherY sameY
  exact ⟨rfl, rfl⟩

/-- A derivation of points is found from its tokens. -/
theorem Points.eq_of_tokens
    {points other : Points}
    (same : points.tokens = other.tokens) :
    points = other := by
  induction points generalizing other with
  | last point comma closing =>
      cases other with
      | last =>
          simp only [tokens, List.append_assoc] at same
          obtain ⟨rfl, sameRest⟩ := Point.split same
          obtain ⟨rfl, sameClosing⟩ :=
            optional_split (by simp) (by simp) sameRest
          cases sameClosing
          rfl
      | more _ _ others =>
          obtain ⟨opening, rest, shape⟩ := others.derives.head
          simp only [tokens, List.append_assoc, shape] at same
          obtain ⟨-, sameRest⟩ := Point.split same
          obtain ⟨-, absurdity⟩ := optional_split (by simp) (by simp) sameRest
          cases absurdity
  | more point comma others inductionHypothesis =>
      obtain ⟨opening, rest, shape⟩ := others.derives.head
      cases other with
      | last =>
          simp only [tokens, List.append_assoc, shape] at same
          obtain ⟨-, sameRest⟩ := Point.split same
          obtain ⟨-, absurdity⟩ := optional_split (by simp) (by simp) sameRest
          cases absurdity
      | more _ _ otherOthers =>
          obtain ⟨otherOpening, otherRest, otherShape⟩ :=
            otherOthers.derives.head
          simp only [tokens, List.append_assoc, shape, otherShape] at same
          obtain ⟨rfl, sameRest⟩ := Point.split same
          obtain ⟨rfl, sameOthers⟩ :=
            optional_split (by simp) (by simp) sameRest
          rw [inductionHypothesis
            (shape.trans (sameOthers.trans otherShape.symm))]

/--
A derivation of a statement that starts with a name is found from its tokens.
-/
theorem Named.eq_of_tokens
    {named other : Named}
    (same : named.tokens = other.tokens) :
    named = other := by
  -- The parser reads one action from the tokens,
  -- and the action tells the rules apart.
  have sameAction : named.action = other.action := by
    have reads := named.derives.isRead _ none [] (Nat.le_refl _) ends_nil
    have readsToo := other.derives.isRead _ none [] (Nat.le_refl _) ends_nil
    rw [same] at reads
    exact (reads.eq readsToo).1
  cases named with
  | scalar position name equals value =>
      cases other with
      | scalar =>
          simp only [tokens, List.cons.injEq, Located.mk.injEq,
            Token.name.injEq, and_true] at same
          obtain ⟨⟨rfl, rfl⟩, rfl, sameValue⟩ := same
          rw [value.eq_of_tokens _ sameValue]
      | _ => cases sameAction
  | curve position name equals opening points =>
      cases other with
      | curve =>
          simp only [tokens, List.cons.injEq, Located.mk.injEq,
            Token.name.injEq, and_true] at same
          obtain ⟨⟨rfl, rfl⟩, rfl, rfl, samePoints⟩ := same
          rw [Points.eq_of_tokens samePoints]
      | _ => cases sameAction
  | braced position name equals opening elements =>
      cases other with
      | braced =>
          simp only [tokens, List.cons.injEq, Located.mk.injEq,
            Token.name.injEq, and_true] at same
          obtain ⟨⟨rfl, rfl⟩, rfl, rfl, sameElements⟩ := same
          rw [Elements.eq_of_tokens (.inr rfl) sameElements]
      | bracketed => cases same
      | _ => cases sameAction
  | bracketed position name equals opening elements =>
      cases other with
      | bracketed =>
          simp only [tokens, List.cons.injEq, Located.mk.injEq,
            Token.name.injEq, and_true] at same
          obtain ⟨⟨rfl, rfl⟩, rfl, rfl, sameElements⟩ := same
          rw [Elements.eq_of_tokens (.inl rfl) sameElements]
      | braced => cases same
      | _ => cases sameAction
  | function position name opening params closing equals body =>
      cases other with
      | function =>
          obtain ⟨sameName, sameRest⟩ := List.cons.inj same
          obtain ⟨sameOpening, sameParams⟩ := List.cons.inj sameRest
          obtain ⟨rfl, rfl, sameDefinition⟩ := Params.split sameParams
          obtain ⟨sameEquals, sameBody⟩ := List.cons.inj sameDefinition
          cases sameName
          cases sameOpening
          cases sameEquals
          rw [body.eq_of_tokens _ sameBody]
      | _ => cases sameAction
  | sizedBracketed position name sizes equals opening elements =>
      cases other with
      | sizedBracketed =>
          obtain ⟨sameName, sameRest⟩ := List.cons.inj same
          obtain ⟨sameSizes, sameDefinition⟩ := sizes.split _ rfl rfl sameRest
          simp only [List.cons.injEq, Located.mk.injEq,
            and_true] at sameDefinition
          obtain ⟨rfl, rfl, sameElements⟩ := sameDefinition
          cases sameName
          rw [sizes.eq_of_tokens _ sameSizes,
            Elements.eq_of_tokens (.inl rfl) sameElements]
      | sizedBraced =>
          obtain ⟨-, sameRest⟩ := sizes.split _ rfl rfl (List.cons.inj same).2
          cases sameRest
      | _ => cases sameAction
  | sizedBraced position name sizes equals opening elements =>
      cases other with
      | sizedBraced =>
          obtain ⟨sameName, sameRest⟩ := List.cons.inj same
          obtain ⟨sameSizes, sameDefinition⟩ := sizes.split _ rfl rfl sameRest
          simp only [List.cons.injEq, Located.mk.injEq,
            and_true] at sameDefinition
          obtain ⟨rfl, rfl, sameElements⟩ := sameDefinition
          cases sameName
          rw [sizes.eq_of_tokens _ sameSizes,
            Elements.eq_of_tokens (.inr rfl) sameElements]
      | sizedBracketed =>
          obtain ⟨-, sameRest⟩ := sizes.split _ rfl rfl (List.cons.inj same).2
          cases sameRest
      | _ => cases sameAction
  | assign position name indices equals value =>
      cases other with
      | assign =>
          obtain ⟨sameName, sameRest⟩ := List.cons.inj same
          obtain ⟨sameIndices, sameDefinition⟩ :=
            indices.split _ rfl rfl sameRest
          obtain ⟨sameEquals, sameValue⟩ := List.cons.inj sameDefinition
          cases sameName
          cases sameEquals
          rw [indices.eq_of_tokens _ sameIndices,
            value.eq_of_tokens _ sameValue]
      | _ => cases sameAction

/-- A statement is found up to its semicolon. -/
theorem Statement.split
    {statement other : Statement}
    {rest after : Tokens}
    (same : statement.tokens ++ rest = other.tokens ++ after) :
    statement = other ∧ rest = after := by
  obtain ⟨-, rfl⟩ := statement.derives.split other.derives same
  have sameTokens : statement.tokens = other.tokens :=
    List.append_cancel_right same
  refine ⟨?_, rfl⟩
  cases statement with
  | print position value semicolon =>
      cases other with
      | print =>
          obtain ⟨sameFront, sameSemicolon⟩ := List.append_inj' sameTokens rfl
          obtain ⟨samePrint, sameValue⟩ := List.cons.inj sameFront
          cases samePrint
          cases sameSemicolon
          rw [value.eq_of_tokens _ sameValue]
      | named declaration =>
          obtain ⟨name, others, shape⟩ := declaration.exists_tokens
          rw [tokens, tokens, shape] at sameTokens
          cases sameTokens
  | named declaration semicolon =>
      cases other with
      | print =>
          obtain ⟨name, others, shape⟩ := declaration.exists_tokens
          rw [tokens, tokens, shape] at sameTokens
          cases sameTokens
      | named =>
          obtain ⟨sameDeclaration, sameSemicolon⟩ :=
            List.append_inj' sameTokens rfl
          cases sameSemicolon
          rw [Named.eq_of_tokens sameDeclaration]

/-- Neither the end of the text nor a semicolon starts a statement. -/
theorem Statement.not_starts
    (statement : Statement)
    {token : Located Token}
    {rest others : Tokens}
    (ends : token.item = .eof ∨ token.item = .mark .semicolon)
    (same : statement.tokens ++ rest = token :: others) :
    False := by
  obtain ⟨first, more, shape, starts⟩ := statement.derives.head
  rw [shape] at same
  cases same
  rcases starts with isPrint | ⟨name, isName⟩ <;> rcases ends with
      isEnd | isSemicolon <;> simp_all

theorem Statement.append_ne_nil
    (statement : Statement)
    (rest : Tokens) :
    statement.tokens ++ rest ≠ [] :=
  List.append_ne_nil_of_left_ne_nil
    (List.length_pos_iff.mp statement.derives.length_pos) rest

/-- A derivation of a program is found from its tokens. -/
theorem Program.eq_of_tokens
    {program other : Program}
    (same : program.tokens = other.tokens) :
    program = other := by
  induction program generalizing other with
  | done =>
      cases other with
      | done => rfl
      | next statement others =>
          exact (statement.append_ne_nil _ same.symm).elim
      | _ => cases same
  | ended position rest =>
      cases other with
      | ended =>
          cases same
          rfl
      | next statement => exact (statement.not_starts (.inl rfl) same.symm).elim
      | _ => cases same
  | skipped position others inductionHypothesis =>
      cases other with
      | skipped =>
          obtain ⟨sameSemicolon, sameOthers⟩ := List.cons.inj same
          cases sameSemicolon
          rw [inductionHypothesis sameOthers]
      | next statement => exact (statement.not_starts (.inr rfl) same.symm).elim
      | _ => cases same
  | next statement others inductionHypothesis =>
      cases other with
      | done => exact (statement.append_ne_nil _ same).elim
      | ended => exact (statement.not_starts (.inl rfl) same).elim
      | skipped => exact (statement.not_starts (.inr rfl) same).elim
      | next =>
          obtain ⟨rfl, sameOthers⟩ := Statement.split same
          rw [inductionHypothesis sameOthers]

/-- Neither a semicolon nor the end of the text extends an expression. -/
theorem ends_optional
    (semicolon : Option Position)
    (ending : Position)
    (rest : Tokens) :
    Ends .expression
      (optional .semicolon semicolon ++ ⟨ending, .eof⟩ :: rest) := by
  cases semicolon <;> exact ends_cons rfl

/--
The derivation of an expression that stands alone is found from its tokens.
-/
theorem Standalone.eq_of_tokens
    {standalone other : Standalone}
    (same : standalone.tokens = other.tokens) :
    standalone = other := by
  obtain ⟨tree, semicolon, ending, rest⟩ := standalone
  obtain ⟨otherTree, otherSemicolon, otherEnding, otherRest⟩ := other
  simp only [tokens, List.append_assoc] at same
  obtain ⟨sameTree, sameRest⟩ :=
    tree.derives.split otherTree.derives (ends_optional _ _ _)
      (ends_optional _ _ _) same
  obtain ⟨rfl, sameEnd⟩ := optional_split (by simp) (by simp) sameRest
  cases sameEnd
  rw [tree.eq_of_tokens otherTree sameTree]

end Derivation

end Grammar

end Formulary
