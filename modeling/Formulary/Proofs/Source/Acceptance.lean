import Formulary.Proofs.Source.Declarations
import Formulary.Proofs.Source.Statements

namespace Formulary

open Stateful

/-!
# The parser accepts the grammar

Every statement of the grammar is read, whatever its form, and so is every
program.  Braces hold points exactly when a comma follows the first expression
of a leading parenthesis: the initializers of an array never look like that,
because a parenthesis that starts an expression closes behind an expression.
-/

namespace Grammar

/-- Read a phrase of a category. -/
def Category.read (depth : Nat) (cursor : Cursor) :
    Category → Except SyntaxError (List Expr × Cursor)
  | .list => Parse.expressions depth cursor
  | .expression =>
      (Parse.expression depth cursor).map fun (tree, next) => ([tree], next)
  | .sum => (Parse.sum depth cursor).map fun (tree, next) => ([tree], next)
  | .term => (Parse.term depth cursor).map fun (tree, next) => ([tree], next)
  | .power => (Parse.power depth cursor).map fun (tree, next) => ([tree], next)
  | .unary => (Parse.unary depth cursor).map fun (tree, next) => ([tree], next)
  | .primary =>
      (Parse.primary depth cursor).map fun (tree, next) => ([tree], next)
  | .subscripts => Parse.subscripts depth cursor

theorem Gives.single
    {result : Except SyntaxError (Expr × Cursor)}
    {tree : Expr}
    {rest : Tokens}
    (gives : Gives result tree rest) :
    Gives (result.map fun (tree, next) => ([tree], next)) [tree] rest := by
  obtain ⟨last, rfl⟩ := gives
  exact ⟨last, rfl⟩

/-- Outside lists and subscripts, a phrase stands for one tree. -/
theorem Derives.single
    {category : Category}
    {tokens : Tokens}
    {trees : List Expr}
    (derives : Derives category tokens trees)
    (notList : category ≠ .list)
    (notSubscripts : category ≠ .subscripts) :
    ∃ tree, trees = [tree] := by
  cases derives <;> first
    | exact ⟨_, rfl⟩
    | exact absurd rfl notList
    | exact absurd rfl notSubscripts

/-- A phrase is read in front of a token that does not extend it. -/
theorem Derives.reads
    {category : Category}
    {tokens rest : Tokens}
    {trees : List Expr}
    (derives : Derives category tokens trees)
    {depth : Nat}
    (enough : 8 * tokens.length ≤ depth)
    (ends : Ends category rest)
    (last : Option Position) :
    Gives (category.read depth ⟨tokens ++ rest, last⟩) trees rest := by
  have complete := derives.complete
  have nonempty := derives.length_pos
  have enoughDepth : 8 * tokens.length ≤ depth + category.tightness := by omega
  cases category with
  | list => exact complete depth last rest enoughDepth ends
  | subscripts => exact complete depth last rest enoughDepth ends
  | expression =>
      obtain ⟨tree, rfl⟩ := derives.single (by decide) (by decide)
      exact (complete depth last rest enoughDepth ends tree rfl).single
  | sum =>
      obtain ⟨tree, rfl⟩ := derives.single (by decide) (by decide)
      exact (sum_done complete nonempty enoughDepth ends last).single
  | term =>
      obtain ⟨tree, rfl⟩ := derives.single (by decide) (by decide)
      exact (term_done complete nonempty enoughDepth ends last).single
  | power =>
      obtain ⟨tree, rfl⟩ := derives.single (by decide) (by decide)
      exact (complete depth last rest enoughDepth ends tree rfl).single
  | unary =>
      obtain ⟨tree, rfl⟩ := derives.single (by decide) (by decide)
      exact (complete depth last rest enoughDepth ends tree rfl).single
  | primary =>
      obtain ⟨tree, rfl⟩ := derives.single (by decide) (by decide)
      exact (complete depth last rest enoughDepth ends tree rfl).single

/-- What is read from the same tokens is the same. -/
theorem Gives.eq
    {result : Except SyntaxError (α × Cursor)}
    {a b : α}
    {rest others : Tokens}
    (gives : Gives result a rest)
    (givesToo : Gives result b others) :
    a = b ∧ rest = others := by
  obtain ⟨last, rfl⟩ := gives
  obtain ⟨last, same⟩ := givesToo
  cases same
  exact ⟨rfl, rfl⟩

/--
Tokens can be cut in one way only into a phrase and what does not extend it.
-/
theorem Derives.split
    {category : Category}
    {tokens others rest after : Tokens}
    {trees otherTrees : List Expr}
    (derives : Derives category tokens trees)
    (derivesToo : Derives category others otherTrees)
    (ends : Ends category rest)
    (endsToo : Ends category after)
    (same : tokens ++ rest = others ++ after) :
    tokens = others ∧ rest = after := by
  have reads :=
    derives.reads (by omega : _ ≤ 8 * (tokens.length + others.length)) ends none
  have readsToo :=
    derivesToo.reads
      (by omega : _ ≤ 8 * (tokens.length + others.length)) endsToo none
  rw [same] at reads
  obtain ⟨-, rfl⟩ := reads.eq readsToo
  exact ⟨List.append_cancel_right same, rfl⟩

/-! What braces hold: the points of a table, or the elements of an array. -/

/-- A leading parenthesis in which a comma follows the first expression. -/
def StartsPoint (tokens : Tokens) : Prop :=
  ∃ opening before x comma after,
    tokens =
      ⟨opening, .mark .openParen⟩ :: before ++ ⟨comma, .mark .comma⟩ :: after ∧
      Derives .expression before [x]

/-- The first token of a phrase comes first, whatever follows the phrase. -/
theorem Derives.of_append_eq_cons
    {category : Category}
    {tokens rest following : Tokens}
    {trees : List Expr}
    (derives : Derives category tokens trees)
    {first : Located Token}
    (starts : tokens ++ rest = first :: following) :
    ∃ others, tokens = first :: others ∧ following = others ++ rest := by
  obtain ⟨own, others, rfl, -⟩ := derives.head
  cases starts
  exact ⟨others, rfl, rfl⟩

/--
A phrase that starts with a parenthesis starts with an expression in
parentheses.
-/
theorem Derives.leadingParenthesis
    {category : Category}
    {tokens following : Tokens}
    {trees : List Expr}
    (derives : Derives category tokens trees)
    {opening : Position}
    (starts : tokens = ⟨opening, .mark .openParen⟩ :: following) :
    ∃ inner tree closing rest,
      following = inner ++ ⟨closing, .mark .closeParen⟩ :: rest ∧
        Derives .expression inner [tree] := by
  induction derives generalizing following with
  | lastItem _ inductionHypothesis | oneSum _ inductionHypothesis
  | oneTerm _ inductionHypothesis
  | onePower _ inductionHypothesis | oneUnary _ inductionHypothesis
  | onePrimary _ inductionHypothesis =>
      exact inductionHypothesis starts
  | moreItems front _ inductionHypothesis _
  | comparison _ front _ inductionHypothesis _
  | moreTerms _ front _ inductionHypothesis _
  | morePowers _ front _ inductionHypothesis _
  | raised front _ inductionHypothesis _ =>
      obtain ⟨others, shape, rfl⟩ := front.of_append_eq_cons starts
      obtain ⟨inner, tree, closing, rest, rfl, derives⟩ :=
        inductionHypothesis shape
      exact ⟨inner, tree, closing, _, List.append_assoc _ _ _, derives⟩
  | parenthesis inside =>
      cases starts
      exact ⟨_, _, _, [], rfl, inside⟩
  | negated | literal | name | emptyCall | call | element | lastGroup
  | moreGroups =>
      cases starts

theorem Points.starts
    {tokens : Tokens}
    {pairs : List (Expr × Expr)}
    (derives : Points tokens pairs) :
    StartsPoint tokens := by
  cases derives with
  | last pointDerives _ | more pointDerives _ _ =>
      cases pointDerives with
      | point xDerives yDerives =>
          exact ⟨_, _, _, _, _,
            by simp only [List.append_assoc, List.cons_append]; rfl, xDerives⟩

/-- The initializers of an array do not look like points. -/
theorem Elements.not_startsPoint
    {close : Mark}
    {tokens : Tokens}
    {items : List Expr}
    (derives : Elements close tokens items)
    (rest : Tokens) :
    ¬ StartsPoint (tokens ++ rest) := by
  rintro ⟨opening, before, x, comma, after, shape, xDerives⟩
  obtain ⟨front, item, others, rfl, itemDerives⟩ :
      ∃ front item others,
        tokens = front ++ others ∧ Derives .expression front [item] := by
    cases derives with
    | last itemDerives | lastComma itemDerives | more itemDerives _ =>
        exact ⟨_, _, _, rfl, itemDerives⟩
  rw [List.append_assoc] at shape
  obtain ⟨others, frontShape, following⟩ := itemDerives.of_append_eq_cons shape
  obtain ⟨inner, tree, closing, more, rfl, innerDerives⟩ :=
    itemDerives.leadingParenthesis frontShape
  rw [List.append_assoc, List.cons_append] at following
  obtain ⟨-, marks⟩ :=
    xDerives.split innerDerives (ends_cons rfl) (ends_cons rfl) following
  cases marks

/-- What the parser takes for points starts like points. -/
theorem startsPoint_of_parse
    {depth : Nat}
    {cursor : Cursor}
    (found : Parse.startsPoint depth cursor = true) :
    StartsPoint cursor.rest := by
  rw [Parse.startsPoint, Bool.and_eq_true] at found
  obtain ⟨opens, found⟩ := found
  obtain ⟨opening, following, shape⟩ := Cursor.at?_eq_true_iff.mp opens
  split at found
  · rename_i x afterX succeeds
    obtain ⟨before, xShape, xDerives⟩ := (sound depth).expression succeeds
    obtain ⟨comma, after, commaShape⟩ := Cursor.at?_eq_true_iff.mp found
    rw [Cursor.advance_rest shape, commaShape] at xShape
    exact ⟨opening, before, x, comma, after,
      by rw [shape, xShape, List.cons_append], xDerives⟩
  · cases found

/-- Initializers in braces, after the opening brace. -/
theorem Elements.braced
    {tokens : Tokens}
    {items : List Expr}
    (derives : Elements .closeBrace tokens items)
    {depth : Nat}
    (enough : 8 * tokens.length ≤ depth)
    (rest : Tokens)
    (last : Option Position) :
    Gives (Parse.braced depth ⟨tokens ++ rest, last⟩)
      (.elements items) rest := by
  obtain ⟨final, reads⟩ := derives.initializer (.inr rfl) enough rest last
  have notPoints : ¬ Parse.startsPoint depth ⟨tokens ++ rest, last⟩ = true :=
    fun found =>
      derives.not_startsPoint rest (startsPoint_of_parse found)
  refine ⟨final, ?_⟩
  rw [Parse.braced, if_neg notPoints, reads, except_bind_ok]
  rfl

section Forms

variable
  {name : String}
  {position equals opening : Position}

theorem isRead_braced
    {tokens : Tokens}
    {items : List Expr}
    (derives : Elements .closeBrace tokens items) :
    IsRead
      (⟨position, .name name⟩ :: ⟨equals, .mark .assign⟩ ::
        ⟨opening, .mark .openBrace⟩ :: tokens)
      (.array name none items) := by
  intro depth last rest enough _
  simp only [List.length_cons] at enough
  obtain ⟨final, reads⟩ :=
    derives.braced (by omega : 8 * tokens.length ≤ depth) rest (some opening)
  refine ⟨final, ?_⟩
  simp only [List.cons_append, named_assign, Parse.definition, Cursor.peek?,
    List.head?_cons, Option.map_some, Cursor.advance, reads, except_bind_ok]
  rfl

theorem isRead_bracketed
    {tokens : Tokens}
    {items : List Expr}
    (derives : Elements .closeBracket tokens items) :
    IsRead
      (⟨position, .name name⟩ :: ⟨equals, .mark .assign⟩ ::
        ⟨opening, .mark .openBracket⟩ :: tokens)
      (.array name none items) := by
  intro depth last rest enough _
  simp only [List.length_cons] at enough
  obtain ⟨final, reads⟩ :=
    derives.initializer (.inl rfl) (by omega : 8 * tokens.length ≤ depth) rest
      (some opening)
  refine ⟨final, ?_⟩
  simp only [List.cons_append, named_assign, Parse.definition, Cursor.peek?,
    List.head?_cons, Option.map_some, Cursor.advance, reads, except_bind_ok]
  rfl

theorem isRead_sizedBraced
    {before after : Tokens}
    {sizes items : List Expr}
    (sizesDerive : Derives .subscripts before sizes)
    (itemsDerive : Elements .closeBrace after items) :
    IsRead
      (⟨position, .name name⟩ :: before ++ ⟨equals, .mark .assign⟩
        :: ⟨opening, .mark .openBrace⟩ :: after)
      (.array name (some sizes) items) := by
  intro depth last rest enough _
  simp only [List.length_cons, List.length_append] at enough
  obtain ⟨final, reads⟩ :=
    itemsDerive.braced (by omega : 8 * after.length ≤ depth) rest (some opening)
  refine ⟨final, ?_⟩
  rw [named_subscripts sizesDerive (by omega)]
  simp only [List.cons_append, Cursor.peek?, List.head?_cons, Option.map_some,
    Cursor.advance, reads, except_bind_ok]
  rfl

theorem isRead_assign
    {before after : Tokens}
    {indices : List Expr}
    {value : Expr}
    (indicesDerive : Derives .subscripts before indices)
    (valueDerives : Derives .expression after [value]) :
    IsRead
      (⟨position, .name name⟩ :: before ++ ⟨equals, .mark .assign⟩ :: after)
      (.assign name indices value) := by
  intro depth last rest enough ends
  simp only [List.length_cons, List.length_append] at enough
  obtain ⟨final, reads⟩ :=
    valueDerives.gives (by omega : 8 * after.length ≤ depth + 1)
      ends (some equals)
  obtain ⟨⟨place, first⟩, others, rfl, starts⟩ := valueDerives.head
  refine ⟨final, ?_⟩
  rw [named_subscripts indicesDerive (by omega)]
  split
  · rename_i bracket
    cases bracket
    cases starts
  · rename_i brace
    cases brace
    cases starts
  · rw [reads]
    rfl

end Forms

/-- Every statement that starts with a name is read. -/
theorem Named.isRead
    {tokens : Tokens}
    {action : Action}
    (derives : Named tokens action) :
    IsRead tokens action := by
  cases derives with
  | scalar value => exact isRead_scalar value
  | curve points => exact isRead_curve points
  | braced items => exact isRead_braced items
  | bracketed items => exact isRead_bracketed items
  | function params body => exact isRead_function params body
  | sizedBracketed sizes items => exact isRead_array sizes items
  | sizedBraced sizes items => exact isRead_sizedBraced sizes items
  | assign indices value => exact isRead_assign indices value

/-- A statement that starts with a name starts with a name. -/
theorem Named.head
    {tokens : Tokens}
    {action : Action}
    (derives : Named tokens action) :
    ∃ position name others, tokens = ⟨position, .name name⟩ :: others := by
  cases derives <;> exact ⟨_, _, _, rfl⟩

/-- Every statement is read up to its semicolon, whatever follows. -/
theorem OneStatement.complete
    {tokens : Tokens}
    {statement : Statement}
    (derives : OneStatement tokens statement)
    {depth : Nat}
    (enough : 8 * tokens.length ≤ depth)
    (rest : Tokens)
    (last : Option Position) :
    Gives (Parse.statement depth ⟨tokens ++ rest, last⟩) statement rest := by
  cases derives with
  | @print tokens value position semicolon valueDerives =>
      simp only [List.length_append, List.length_cons,
        List.length_nil] at enough
      obtain ⟨between, reads⟩ :=
        valueDerives.gives (by omega : 8 * tokens.length ≤ depth + 1)
          (ends_cons rfl :
            Ends .expression (⟨semicolon, .mark .semicolon⟩ :: rest))
          (some position)
      refine ⟨some semicolon, ?_⟩
      have isPrint :
          Cursor.peek?
              ⟨⟨position, .print⟩ ::
                (tokens ++ ⟨semicolon, .mark .semicolon⟩ :: rest), last⟩ =
            some .print :=
        rfl
      rw [List.append_assoc, List.cons_append, List.singleton_append,
        Parse.statement]
      simp only [isPrint, if_true, Cursor.advance, reads, except_bind_ok,
        expect_cons]
      rfl
  | @named first tokens action semicolon namedDerives =>
      obtain ⟨position, name, others, shape⟩ := namedDerives.head
      cases shape
      simp only [List.length_append, List.length_cons,
        List.length_nil] at enough
      rw [List.append_assoc, List.singleton_append]
      exact namedDerives.isRead.statement (by omega) last

/-- A statement is found up to its semicolon, whatever follows. -/
theorem OneStatement.split
    {tokens others rest after : Tokens}
    {statement other : Statement}
    (derives : OneStatement tokens statement)
    (derivesToo : OneStatement others other)
    (same : tokens ++ rest = others ++ after) :
    statement = other ∧ rest = after := by
  have reads :=
    derives.complete (Nat.le_add_right _ (8 * others.length)) rest none
  have readsToo :=
    derivesToo.complete (Nat.le_add_left _ (8 * tokens.length)) after none
  rw [same] at reads
  exact reads.eq readsToo

/-- A statement starts with a name or the word `print`. -/
theorem OneStatement.head
    {tokens : Tokens}
    {statement : Statement}
    (derives : OneStatement tokens statement) :
    ∃ first others, tokens = first :: others ∧
      (first.item = .print ∨ ∃ name, first.item = .name name) := by
  cases derives with
  | print => exact ⟨_, _, rfl, .inl rfl⟩
  | named namedDerives =>
      obtain ⟨position, name, others, shape⟩ := namedDerives.head
      cases shape
      exact ⟨_, _, rfl, .inr ⟨name, rfl⟩⟩

/-- Every program is read. -/
theorem Program.complete
    {tokens : Tokens}
    {statements : List Statement}
    (derives : Program tokens statements)
    {depth count : Nat}
    (enough : 8 * tokens.length ≤ depth)
    (enoughStatements : tokens.length < count)
    (last : Option Position) :
    Parse.statements depth count ⟨tokens, last⟩ = .ok statements := by
  induction derives generalizing count last with
  | done =>
      obtain ⟨fuel, rfl⟩ : ∃ fuel, count = fuel + 1 := ⟨count - 1, by omega⟩
      rfl
  | ended =>
      obtain ⟨fuel, rfl⟩ : ∃ fuel, count = fuel + 1 := ⟨count - 1, by omega⟩
      rfl
  | @skipped tokens statements position others inductionHypothesis =>
      simp only [List.length_cons] at enough enoughStatements
      obtain ⟨fuel, rfl⟩ : ∃ fuel, count = fuel + 1 := ⟨count - 1, by omega⟩
      exact inductionHypothesis (by omega) (by omega) (some position)
  | @next tokens rest statement statements first others inductionHypothesis =>
      have nonempty := first.length_pos
      simp only [List.length_append] at enough enoughStatements
      obtain ⟨fuel, rfl⟩ : ∃ fuel, count = fuel + 1 := ⟨count - 1, by omega⟩
      obtain ⟨between, reads⟩ :=
        first.complete (by omega : 8 * tokens.length ≤ depth) rest last
      have readsOthers :
          Parse.statements depth fuel ⟨rest, between⟩ = .ok statements :=
        inductionHypothesis (by omega) (by omega) between
      have readsAll := statements_of_statement reads readsOthers
      -- A statement starts neither with a
      -- semicolon nor with the end of the text.
      obtain ⟨⟨position, item⟩, more, rfl, starts⟩ := first.head
      rcases starts with isPrint | ⟨name, isName⟩
      · cases isPrint
        exact readsAll
      · cases isName
        exact readsAll

/-- The parser reads exactly the programs of the grammar, comments left out. -/
theorem program_iff
    {tokens : Tokens}
    {statements : List Statement} :
    Parse.program tokens = .ok statements ↔
      Program (Token.clean tokens) statements := by
  refine ⟨program_of_parse, fun derives => ?_⟩
  have shorter : (Token.clean tokens).length ≤ tokens.length :=
    List.length_filter_le _ tokens
  exact derives.complete (by rw [Parse.depthFor]; omega) (by omega) none

end Grammar

end Formulary
