import Formulary.Proofs.Source.Grammar

namespace Formulary

/-!
# Derivations

The derivations of the grammar as data: one constructor for each rule, holding
the derivations of the parts and the positions of the tokens that the rule
itself demands.  A derivation has the tokens at its leaves and the tree it
stands for; a list of tokens is a phrase exactly when it has a derivation.
-/

namespace Grammar

/-- What a phrase of a category stands for. -/
abbrev Category.Meaning : Category → Type
  | .list => List Expr
  | .expression => Expr
  | .sum => Expr
  | .term => Expr
  | .power => Expr
  | .unary => Expr
  | .primary => Expr
  | .subscripts => List Expr

/-- The trees of what a phrase stands for. -/
def Category.trees : (category : Category) → category.Meaning → List Expr
  | .list, items => items
  | .expression, tree => [tree]
  | .sum, tree => [tree]
  | .term, tree => [tree]
  | .power, tree => [tree]
  | .unary, tree => [tree]
  | .primary, tree => [tree]
  | .subscripts, indices => indices

namespace Derivation

/-- Operators that do not chain. -/
def comparisons : List BinaryOp :=
  [.lt, .le, .gt, .ge, .eq, .ne]

/-- Operators between the terms of a sum. -/
def additives : List BinaryOp :=
  [.add, .sub]

/-- Operators between the powers of a term. -/
def multiplicatives : List BinaryOp :=
  [.mul, .div]

theorem mem_comparisons
    {op : BinaryOp} :
    op ∈ comparisons ↔ op.isComparison = true := by
  cases op <;> decide

theorem mem_additives
    {op : BinaryOp} :
    op ∈ additives ↔ Parse.isAdditive op = true := by
  cases op <;> decide

theorem mem_multiplicatives
    {op : BinaryOp} :
    op ∈ multiplicatives ↔ Parse.isMultiplicative op = true := by
  cases op <;> decide

/-- Derivations of the phrases inside an expression. -/
inductive Phrase : Category → Type where
  | lastItem (item : Phrase .expression) : Phrase .list
  | moreItems
      (item : Phrase .expression)
      (comma : Position)
      (others : Phrase .list) :
      Phrase .list
  | oneSum (sum : Phrase .sum) : Phrase .expression
  | comparison
      (left : Phrase .sum)
      (position : Position)
      (op : BinaryOp)
      (compares : op ∈ comparisons)
      (right : Phrase .sum) :
      Phrase .expression
  | oneTerm (term : Phrase .term) : Phrase .sum
  | moreTerms
      (left : Phrase .sum)
      (position : Position)
      (op : BinaryOp)
      (additive : op ∈ additives)
      (right : Phrase .term) :
      Phrase .sum
  | onePower (power : Phrase .power) : Phrase .term
  | morePowers
      (left : Phrase .term)
      (position : Position)
      (op : BinaryOp)
      (multiplicative : op ∈ multiplicatives)
      (right : Phrase .power) :
      Phrase .term
  | oneUnary (unary : Phrase .unary) : Phrase .power
  | raised
      (base : Phrase .unary)
      (position : Position)
      (exponent : Phrase .power) :
      Phrase .power
  | onePrimary (primary : Phrase .primary) : Phrase .unary
  | negated (position : Position) (operand : Phrase .unary) : Phrase .unary
  | literal (position : Position) (value : Value) : Phrase .primary
  | parenthesis
      (opening : Position)
      (inner : Phrase .expression)
      (closing : Position) :
      Phrase .primary
  | name (position : Position) (spelling : String) : Phrase .primary
  | emptyCall
      (position : Position)
      (spelling : String)
      (opening closing : Position) :
      Phrase .primary
  | call
      (position : Position)
      (spelling : String)
      (opening : Position)
      (items : Phrase .list)
      (closing : Position) :
      Phrase .primary
  | element
      (position : Position)
      (spelling : String)
      (indices : Phrase .subscripts) :
      Phrase .primary
  | lastGroup (opening : Position) (group : Phrase .list) (closing : Position) :
      Phrase .subscripts
  | moreGroups
      (opening : Position)
      (group : Phrase .list)
      (closing : Position)
      (others : Phrase .subscripts) :
      Phrase .subscripts

namespace Phrase

/-- The tokens at the leaves. -/
def tokens : {category : Category} → Phrase category → Tokens
  | _, .lastItem item => item.tokens
  | _, .moreItems item comma others =>
      item.tokens ++ ⟨comma, .mark .comma⟩ :: others.tokens
  | _, .oneSum sum => sum.tokens
  | _, .comparison left position op _ right =>
      left.tokens ++ ⟨position, .operator op⟩ :: right.tokens
  | _, .oneTerm term => term.tokens
  | _, .moreTerms left position op _ right =>
      left.tokens ++ ⟨position, .operator op⟩ :: right.tokens
  | _, .onePower power => power.tokens
  | _, .morePowers left position op _ right =>
      left.tokens ++ ⟨position, .operator op⟩ :: right.tokens
  | _, .oneUnary unary => unary.tokens
  | _, .raised base position exponent =>
      base.tokens ++ ⟨position, .operator .pow⟩ :: exponent.tokens
  | _, .onePrimary primary => primary.tokens
  | _, .negated position operand => ⟨position, .operator .sub⟩ :: operand.tokens
  | _, .literal position value => [⟨position, .literal value⟩]
  | _, .parenthesis opening inner closing =>
      ⟨opening, .mark .openParen⟩ :: inner.tokens ++
        [⟨closing, .mark .closeParen⟩]
  | _, .name position spelling => [⟨position, .name spelling⟩]
  | _, .emptyCall position spelling opening closing =>
      [⟨position, .name spelling⟩, ⟨opening, .mark .openParen⟩,
        ⟨closing, .mark .closeParen⟩]
  | _, .call position spelling opening items closing =>
      ⟨position, .name spelling⟩ :: ⟨opening, .mark .openParen⟩ :: items.tokens
        ++ [⟨closing, .mark .closeParen⟩]
  | _, .element position spelling indices =>
      ⟨position, .name spelling⟩ :: indices.tokens
  | _, .lastGroup opening group closing =>
      ⟨opening, .mark .openBracket⟩ :: group.tokens ++
        [⟨closing, .mark .closeBracket⟩]
  | _, .moreGroups opening group closing others =>
      ⟨opening, .mark .openBracket⟩ :: group.tokens
        ++ ⟨closing, .mark .closeBracket⟩ :: others.tokens

/-- What a derivation stands for. -/
def value : {category : Category} → Phrase category → category.Meaning
  | _, .lastItem item => [item.value]
  | _, .moreItems item _ others => item.value :: others.value
  | _, .oneSum sum => sum.value
  | _, .comparison left _ op _ right => .combine op left.value right.value
  | _, .oneTerm term => term.value
  | _, .moreTerms left _ op _ right => .combine op left.value right.value
  | _, .onePower power => power.value
  | _, .morePowers left _ op _ right => .combine op left.value right.value
  | _, .oneUnary unary => unary.value
  | _, .raised base _ exponent => .combine .pow base.value exponent.value
  | _, .onePrimary primary => primary.value
  | _, .negated position operand => .negate position operand.value
  | _, .literal position value => .literal position value
  | _, .parenthesis _ inner _ => inner.value
  | _, .name position spelling => .name position spelling
  | _, .emptyCall position spelling _ _ => .call position spelling []
  | _, .call position spelling _ items _ => .call position spelling items.value
  | _, .element position spelling indices =>
      .element position spelling indices.value
  | _, .lastGroup _ group _ => group.value
  | _, .moreGroups _ group _ others => group.value ++ others.value

/-- A derivation derives its tokens. -/
theorem derives
    {category : Category}
    (phrase : Phrase category) :
    Derives category phrase.tokens (category.trees phrase.value) := by
  induction phrase with
  | lastItem item ofItem => exact .lastItem ofItem
  | moreItems item comma others ofItem ofOthers =>
      exact .moreItems ofItem ofOthers
  | oneSum sum ofSum => exact .oneSum ofSum
  | comparison left position op compares right ofLeft ofRight =>
      exact .comparison (mem_comparisons.mp compares) ofLeft ofRight
  | oneTerm term ofTerm => exact .oneTerm ofTerm
  | moreTerms left position op additive right ofLeft ofRight =>
      exact .moreTerms (mem_additives.mp additive) ofLeft ofRight
  | onePower power ofPower => exact .onePower ofPower
  | morePowers left position op multiplicative right ofLeft ofRight =>
      exact .morePowers (mem_multiplicatives.mp multiplicative) ofLeft ofRight
  | oneUnary unary ofUnary => exact .oneUnary ofUnary
  | raised base position exponent ofBase ofExponent =>
      exact .raised ofBase ofExponent
  | onePrimary primary ofPrimary => exact .onePrimary ofPrimary
  | negated position operand ofOperand => exact .negated ofOperand
  | literal position value => exact .literal
  | parenthesis opening inner closing ofInner => exact .parenthesis ofInner
  | name position spelling => exact .name
  | emptyCall position spelling opening closing => exact .emptyCall
  | call position spelling opening items closing ofItems => exact .call ofItems
  | element position spelling indices ofIndices => exact .element ofIndices
  | lastGroup opening group closing ofGroup => exact .lastGroup ofGroup
  | moreGroups opening group closing others ofGroup ofOthers =>
      exact .moreGroups ofGroup ofOthers

end Phrase

/-- What is derived has a derivation. -/
theorem exists_phrase
    {category : Category}
    {tokens : Tokens}
    {trees : List Expr}
    (derives : Derives category tokens trees) :
    ∃ phrase : Phrase category,
      phrase.tokens = tokens ∧ category.trees phrase.value = trees := by
  induction derives with
  | lastItem _ ofItem =>
      obtain ⟨item, rfl, value⟩ := ofItem
      exact ⟨.lastItem item, rfl, value⟩
  | @moreItems tokens rest tree trees position _ _ ofItem ofOthers =>
      obtain ⟨item, rfl, value⟩ := ofItem
      obtain ⟨others, rfl, rfl⟩ := ofOthers
      cases value
      exact ⟨.moreItems item position others, rfl, rfl⟩
  | oneSum _ ofSum =>
      obtain ⟨sum, rfl, value⟩ := ofSum
      exact ⟨.oneSum sum, rfl, value⟩
  | @comparison before after left right op position compares _ _
        ofLeft ofRight =>
      obtain ⟨left, rfl, value⟩ := ofLeft
      obtain ⟨right, rfl, valueToo⟩ := ofRight
      cases value
      cases valueToo
      exact ⟨.comparison left position op (mem_comparisons.mpr compares) right,
        rfl, rfl⟩
  | oneTerm _ ofTerm =>
      obtain ⟨term, rfl, value⟩ := ofTerm
      exact ⟨.oneTerm term, rfl, value⟩
  | @moreTerms before after left right op position additive _ _
        ofLeft ofRight =>
      obtain ⟨left, rfl, value⟩ := ofLeft
      obtain ⟨right, rfl, valueToo⟩ := ofRight
      cases value
      cases valueToo
      exact ⟨.moreTerms left position op (mem_additives.mpr additive) right,
        rfl, rfl⟩
  | onePower _ ofPower =>
      obtain ⟨power, rfl, value⟩ := ofPower
      exact ⟨.onePower power, rfl, value⟩
  | @morePowers before after left right op position multiplicative _ _
        ofLeft ofRight =>
      obtain ⟨left, rfl, value⟩ := ofLeft
      obtain ⟨right, rfl, valueToo⟩ := ofRight
      cases value
      cases valueToo
      exact ⟨.morePowers left position op
        (mem_multiplicatives.mpr multiplicative) right, rfl, rfl⟩
  | oneUnary _ ofUnary =>
      obtain ⟨unary, rfl, value⟩ := ofUnary
      exact ⟨.oneUnary unary, rfl, value⟩
  | @raised before after base exponent position _ _ ofBase ofExponent =>
      obtain ⟨base, rfl, value⟩ := ofBase
      obtain ⟨exponent, rfl, valueToo⟩ := ofExponent
      cases value
      cases valueToo
      exact ⟨.raised base position exponent, rfl, rfl⟩
  | onePrimary _ ofPrimary =>
      obtain ⟨primary, rfl, value⟩ := ofPrimary
      exact ⟨.onePrimary primary, rfl, value⟩
  | @negated tokens operand position _ ofOperand =>
      obtain ⟨operand, rfl, value⟩ := ofOperand
      cases value
      exact ⟨.negated position operand, rfl, rfl⟩
  | @literal value position => exact ⟨.literal position value, rfl, rfl⟩
  | @parenthesis tokens tree opening closing _ ofInner =>
      obtain ⟨inner, rfl, value⟩ := ofInner
      exact ⟨.parenthesis opening inner closing, rfl, value⟩
  | @name spelling position => exact ⟨.name position spelling, rfl, rfl⟩
  | @emptyCall spelling position opening closing =>
      exact ⟨.emptyCall position spelling opening closing, rfl, rfl⟩
  | @call spelling tokens items position opening closing _ ofItems =>
      obtain ⟨items, rfl, rfl⟩ := ofItems
      exact ⟨.call position spelling opening items closing, rfl, rfl⟩
  | @element spelling tokens indices position _ ofIndices =>
      obtain ⟨indices, rfl, rfl⟩ := ofIndices
      exact ⟨.element position spelling indices, rfl, rfl⟩
  | @lastGroup tokens group opening closing _ ofGroup =>
      obtain ⟨group, rfl, rfl⟩ := ofGroup
      exact ⟨.lastGroup opening group closing, rfl, rfl⟩
  | @moreGroups tokens rest group groups opening closing _ _ ofGroup ofOthers =>
      obtain ⟨group, rfl, rfl⟩ := ofGroup
      obtain ⟨others, rfl, rfl⟩ := ofOthers
      exact ⟨.moreGroups opening group closing others, rfl, rfl⟩

/-- An expression has a derivation. -/
theorem exists_expression
    {tokens : Tokens}
    {tree : Expr}
    (derives : Derives .expression tokens [tree]) :
    ∃ phrase : Phrase .expression,
      phrase.tokens = tokens ∧ phrase.value = tree := by
  obtain ⟨phrase, isTokens, isTree⟩ := exists_phrase derives
  exact ⟨phrase, isTokens, List.singleton_inj.mp isTree⟩

/-- Derivations of parameters. -/
inductive Params where
  | last (position : Position) (name : String)
  | more
      (position : Position)
      (name : String)
      (comma : Position)
      (others : Params)

namespace Params

def tokens : Params → Tokens
  | .last position name => [⟨position, .name name⟩]
  | .more position name comma others =>
      ⟨position, .name name⟩ :: ⟨comma, .mark .comma⟩ :: others.tokens

def names : Params → List String
  | .last _ name => [name]
  | .more _ name _ others => name :: others.names

theorem derives
    (params : Params) :
    Grammar.Params params.tokens params.names := by
  induction params with
  | last position name => exact .last
  | more position name comma others ofOthers => exact .more ofOthers

end Params

theorem exists_params
    {tokens : Tokens}
    {names : List String}
    (derives : Grammar.Params tokens names) :
    ∃ params : Params, params.tokens = tokens ∧ params.names = names := by
  induction derives with
  | @last name position => exact ⟨.last position name, rfl, rfl⟩
  | @more name names tokens position comma _ ofOthers =>
      obtain ⟨others, rfl, rfl⟩ := ofOthers
      exact ⟨.more position name comma others, rfl, rfl⟩

/-- Derivations of initializers and the mark that closes them. -/
inductive Elements where
  | last (item : Phrase .expression) (closing : Position)
  | lastComma (item : Phrase .expression) (comma closing : Position)
  | more (item : Phrase .expression) (comma : Position) (others : Elements)

namespace Elements

def tokens (close : Mark) : Elements → Tokens
  | .last item closing => item.tokens ++ [⟨closing, .mark close⟩]
  | .lastComma item comma closing =>
      item.tokens ++ [⟨comma, .mark .comma⟩, ⟨closing, .mark close⟩]
  | .more item comma others =>
      item.tokens ++ ⟨comma, .mark .comma⟩ :: others.tokens close

def items : Elements → List Expr
  | .last item _ => [item.value]
  | .lastComma item _ _ => [item.value]
  | .more item _ others => item.value :: others.items

theorem derives
    (elements : Elements)
    (close : Mark) :
    Grammar.Elements close (elements.tokens close) elements.items := by
  induction elements with
  | last item closing => exact .last item.derives
  | lastComma item comma closing => exact .lastComma item.derives
  | more item comma others ofOthers => exact .more item.derives ofOthers

end Elements

theorem exists_elements
    {close : Mark}
    {tokens : Tokens}
    {items : List Expr}
    (derives : Grammar.Elements close tokens items) :
    ∃ elements : Elements,
      elements.tokens close = tokens ∧ elements.items = items := by
  induction derives with
  | @last tokens item closing ofItem =>
      obtain ⟨item, rfl, rfl⟩ := exists_expression ofItem
      exact ⟨.last item closing, rfl, rfl⟩
  | @lastComma tokens item comma closing ofItem =>
      obtain ⟨item, rfl, rfl⟩ := exists_expression ofItem
      exact ⟨.lastComma item comma closing, rfl, rfl⟩
  | @more tokens rest item items comma ofItem _ ofOthers =>
      obtain ⟨item, rfl, rfl⟩ := exists_expression ofItem
      obtain ⟨others, rfl, rfl⟩ := ofOthers
      exact ⟨.more item comma others, rfl, rfl⟩

/-- The derivation of a point. -/
structure Point where
  opening : Position
  x : Phrase .expression
  comma : Position
  y : Phrase .expression
  closing : Position

namespace Point

def tokens (point : Point) : Tokens :=
  ⟨point.opening, .mark .openParen⟩ :: point.x.tokens
    ++ ⟨point.comma, .mark .comma⟩ :: point.y.tokens ++
      [⟨point.closing, .mark .closeParen⟩]

def pair (point : Point) : Expr × Expr :=
  (point.x.value, point.y.value)

theorem derives (point : Point) : OnePoint point.tokens point.pair :=
  .point point.x.derives point.y.derives

end Point

theorem exists_point
    {tokens : Tokens}
    {pair : Expr × Expr}
    (derives : OnePoint tokens pair) :
    ∃ point : Point, point.tokens = tokens ∧ point.pair = pair := by
  cases derives with
  | @point before after x y opening comma closing ofX ofY =>
      obtain ⟨x, rfl, rfl⟩ := exists_expression ofX
      obtain ⟨y, rfl, rfl⟩ := exists_expression ofY
      exact ⟨⟨opening, x, comma, y, closing⟩, rfl, rfl⟩

/-- The tokens of a mark that may be left out. -/
def optional (mark : Mark) (position : Option Position) : Tokens :=
  (position.map fun position => ⟨position, .mark mark⟩).toList

theorem optional_derives
    (comma : Option Position) :
    OptionalComma (optional .comma comma) := by
  cases comma with
  | none => exact .absent
  | some position => exact .present

theorem exists_optional
    {tokens : Tokens}
    (derives : OptionalComma tokens) :
    ∃ comma, optional .comma comma = tokens := by
  cases derives with
  | absent => exact ⟨none, rfl⟩
  | @present position => exact ⟨some position, rfl⟩

/-- Derivations of points and the brace that closes them. -/
inductive Points where
  | last (point : Point) (comma : Option Position) (closing : Position)
  | more (point : Point) (comma : Option Position) (others : Points)

namespace Points

def tokens : Points → Tokens
  | .last point comma closing =>
      point.tokens ++ optional .comma comma ++ [⟨closing, .mark .closeBrace⟩]
  | .more point comma others =>
      point.tokens ++ optional .comma comma ++ others.tokens

def pairs : Points → List (Expr × Expr)
  | .last point _ _ => [point.pair]
  | .more point _ others => point.pair :: others.pairs

theorem derives
    (points : Points) :
    Grammar.Points points.tokens points.pairs := by
  induction points with
  | last point comma closing =>
      exact .last point.derives (optional_derives comma)
  | more point comma others ofOthers =>
      exact .more point.derives (optional_derives comma) ofOthers

end Points

theorem exists_points
    {tokens : Tokens}
    {pairs : List (Expr × Expr)}
    (derives : Grammar.Points tokens pairs) :
    ∃ points : Points, points.tokens = tokens ∧ points.pairs = pairs := by
  induction derives with
  | @last tokens comma pair closing ofPoint ofComma =>
      obtain ⟨point, rfl, rfl⟩ := exists_point ofPoint
      obtain ⟨comma, rfl⟩ := exists_optional ofComma
      exact ⟨.last point comma closing, rfl, rfl⟩
  | @more tokens comma rest pair others ofPoint ofComma _ ofOthers =>
      obtain ⟨point, rfl, rfl⟩ := exists_point ofPoint
      obtain ⟨comma, rfl⟩ := exists_optional ofComma
      obtain ⟨others, rfl, rfl⟩ := ofOthers
      exact ⟨.more point comma others, rfl, rfl⟩

/-! Derivations of statements. -/

/-- Derivations of statements that start with a name. -/
inductive Named where
  | scalar
      (position : Position)
      (name : String)
      (equals : Position)
      (value : Phrase .expression)
  | curve
      (position : Position)
      (name : String)
      (equals opening : Position)
      (points : Points)
  | braced
      (position : Position)
      (name : String)
      (equals opening : Position)
      (elements : Elements)
  | bracketed
      (position : Position)
      (name : String)
      (equals opening : Position)
      (elements : Elements)
  | function
      (position : Position)
      (name : String)
      (opening : Position)
      (params : Params)
      (closing equals : Position)
      (body : Phrase .expression)
  | sizedBracketed
      (position : Position)
      (name : String)
      (sizes : Phrase .subscripts)
      (equals opening : Position)
      (elements : Elements)
  | sizedBraced
      (position : Position)
      (name : String)
      (sizes : Phrase .subscripts)
      (equals opening : Position)
      (elements : Elements)
  | assign
      (position : Position)
      (name : String)
      (indices : Phrase .subscripts)
      (equals : Position)
      (value : Phrase .expression)

namespace Named

def tokens : Named → Tokens
  | .scalar position name equals value =>
      ⟨position, .name name⟩ :: ⟨equals, .mark .assign⟩ :: value.tokens
  | .curve position name equals opening points =>
      ⟨position, .name name⟩ :: ⟨equals, .mark .assign⟩ ::
        ⟨opening, .mark .openBrace⟩ :: points.tokens
  | .braced position name equals opening elements =>
      ⟨position, .name name⟩ :: ⟨equals, .mark .assign⟩ ::
        ⟨opening, .mark .openBrace⟩ :: elements.tokens .closeBrace
  | .bracketed position name equals opening elements =>
      ⟨position, .name name⟩ :: ⟨equals, .mark .assign⟩ ::
        ⟨opening, .mark .openBracket⟩ :: elements.tokens .closeBracket
  | .function position name opening params closing equals body =>
      ⟨position, .name name⟩ :: ⟨opening, .mark .openParen⟩ :: params.tokens
        ++ ⟨closing, .mark .closeParen⟩ ::
          ⟨equals, .mark .assign⟩ :: body.tokens
  | .sizedBracketed position name sizes equals opening elements =>
      ⟨position, .name name⟩ :: sizes.tokens ++ ⟨equals, .mark .assign⟩
        :: ⟨opening, .mark .openBracket⟩ :: elements.tokens .closeBracket
  | .sizedBraced position name sizes equals opening elements =>
      ⟨position, .name name⟩ :: sizes.tokens ++ ⟨equals, .mark .assign⟩
        :: ⟨opening, .mark .openBrace⟩ :: elements.tokens .closeBrace
  | .assign position name indices equals value =>
      ⟨position, .name name⟩ :: indices.tokens ++
        ⟨equals, .mark .assign⟩ :: value.tokens

def action : Named → Action
  | .scalar _ name _ value => .scalar name value.value
  | .curve _ name _ _ points => .curve name points.pairs
  | .braced _ name _ _ elements => .array name none elements.items
  | .bracketed _ name _ _ elements => .array name none elements.items
  | .function _ name _ params _ _ body => .function name params.names body.value
  | .sizedBracketed _ name sizes _ _ elements =>
      .array name (some sizes.value) elements.items
  | .sizedBraced _ name sizes _ _ elements =>
      .array name (some sizes.value) elements.items
  | .assign _ name indices _ value => .assign name indices.value value.value

/-- The position of the name. -/
def position : Named → Position
  | .scalar position .. | .curve position .. | .braced position ..
  | .bracketed position .. | .function position ..
  | .sizedBracketed position .. | .sizedBraced position ..
  | .assign position .. => position

/-- The name comes first. -/
theorem exists_tokens
    (named : Named) :
    ∃ name others, named.tokens = ⟨named.position, .name name⟩ :: others := by
  cases named <;> exact ⟨_, _, rfl⟩

theorem derives (named : Named) : Grammar.Named named.tokens named.action := by
  cases named with
  | scalar position name equals value => exact .scalar value.derives
  | curve position name equals opening points => exact .curve points.derives
  | braced position name equals opening elements =>
      exact .braced (elements.derives _)
  | bracketed position name equals opening elements =>
      exact .bracketed (elements.derives _)
  | function position name opening params closing equals body =>
      exact .function params.derives body.derives
  | sizedBracketed position name sizes equals opening elements =>
      exact .sizedBracketed sizes.derives (elements.derives _)
  | sizedBraced position name sizes equals opening elements =>
      exact .sizedBraced sizes.derives (elements.derives _)
  | assign position name indices equals value =>
      exact .assign indices.derives value.derives

end Named

theorem exists_named
    {first : Located Token}
    {tokens : Tokens}
    {action : Action}
    (derives : Grammar.Named (first :: tokens) action) :
    ∃ named : Named, named.tokens = first :: tokens ∧ named.action = action ∧
      named.position = first.position := by
  cases derives with
  | @scalar name tokens value position equals ofValue =>
      obtain ⟨value, rfl, rfl⟩ := exists_expression ofValue
      exact ⟨.scalar position name equals value, rfl, rfl, rfl⟩
  | @curve name tokens pairs position equals opening ofPoints =>
      obtain ⟨points, rfl, rfl⟩ := exists_points ofPoints
      exact ⟨.curve position name equals opening points, rfl, rfl, rfl⟩
  | @braced name tokens items position equals opening ofElements =>
      obtain ⟨elements, rfl, rfl⟩ := exists_elements ofElements
      exact ⟨.braced position name equals opening elements, rfl, rfl, rfl⟩
  | @bracketed name tokens items position equals opening ofElements =>
      obtain ⟨elements, rfl, rfl⟩ := exists_elements ofElements
      exact ⟨.bracketed position name equals opening elements, rfl, rfl, rfl⟩
  | @function name params before after body position opening closing equals
        ofParams ofBody =>
      obtain ⟨params, rfl, rfl⟩ := exists_params ofParams
      obtain ⟨body, rfl, rfl⟩ := exists_expression ofBody
      exact ⟨.function position name opening params closing equals body, rfl,
        rfl, rfl⟩
  | @sizedBracketed name before after sizes items position equals opening
        ofSizes ofElements =>
      obtain ⟨sizes, rfl, rfl⟩ := exists_phrase ofSizes
      obtain ⟨elements, rfl, rfl⟩ := exists_elements ofElements
      exact ⟨.sizedBracketed position name sizes equals opening elements, rfl,
        rfl, rfl⟩
  | @sizedBraced name before after sizes items position equals opening
        ofSizes ofElements =>
      obtain ⟨sizes, rfl, rfl⟩ := exists_phrase ofSizes
      obtain ⟨elements, rfl, rfl⟩ := exists_elements ofElements
      exact ⟨.sizedBraced position name sizes equals opening elements, rfl, rfl,
        rfl⟩
  | @assign name before after indices value position equals ofIndices ofValue =>
      obtain ⟨indices, rfl, rfl⟩ := exists_phrase ofIndices
      obtain ⟨value, rfl, rfl⟩ := exists_expression ofValue
      exact ⟨.assign position name indices equals value, rfl, rfl, rfl⟩

/-- Derivations of statements with their semicolon. -/
inductive Statement where
  | print
      (position : Position)
      (value : Phrase .expression)
      (semicolon : Position)
  | named (declaration : Named) (semicolon : Position)

namespace Statement

def tokens : Statement → Tokens
  | .print position value semicolon =>
      ⟨position, .print⟩ :: value.tokens ++ [⟨semicolon, .mark .semicolon⟩]
  | .named declaration semicolon =>
      declaration.tokens ++ [⟨semicolon, .mark .semicolon⟩]

def statement : Statement → Formulary.Statement
  | .print position value _ => ⟨position, .print value.value⟩
  | .named declaration _ => ⟨declaration.position, declaration.action⟩

theorem derives
    (statement : Statement) :
    OneStatement statement.tokens statement.statement := by
  cases statement with
  | print position value semicolon => exact .print value.derives
  | named declaration semicolon =>
      obtain ⟨name, others, shape⟩ := declaration.exists_tokens
      have declares := declaration.derives
      have isStatement := @OneStatement.named _ _ _ semicolon (shape ▸ declares)
      rwa [← shape] at isStatement

end Statement

theorem exists_statement
    {tokens : Tokens}
    {statement : Formulary.Statement}
    (derives : OneStatement tokens statement) :
    ∃ derivation : Statement,
      derivation.tokens = tokens ∧ derivation.statement = statement := by
  cases derives with
  | @print tokens value position semicolon ofValue =>
      obtain ⟨value, rfl, rfl⟩ := exists_expression ofValue
      exact ⟨.print position value semicolon, rfl, rfl⟩
  | @named first tokens action semicolon ofNamed =>
      obtain ⟨declaration, sameTokens, sameAction, samePosition⟩ :=
        exists_named ofNamed
      refine ⟨.named declaration semicolon, ?_, ?_⟩
      · rw [Statement.tokens, sameTokens]
      · rw [Statement.statement, sameAction, samePosition]

/-- Derivations of programs. -/
inductive Program where
  | done
  | ended (position : Position) (rest : Tokens)
  | skipped (position : Position) (others : Program)
  | next (statement : Statement) (others : Program)

namespace Program

def tokens : Program → Tokens
  | .done => []
  | .ended position rest => ⟨position, .eof⟩ :: rest
  | .skipped position others => ⟨position, .mark .semicolon⟩ :: others.tokens
  | .next statement others => statement.tokens ++ others.tokens

def statements : Program → List Formulary.Statement
  | .done => []
  | .ended _ _ => []
  | .skipped _ others => others.statements
  | .next statement others => statement.statement :: others.statements

theorem derives
    (program : Program) :
    Grammar.Program program.tokens program.statements := by
  induction program with
  | done => exact .done
  | ended position rest => exact .ended
  | skipped position others ofOthers => exact .skipped ofOthers
  | next statement others ofOthers => exact .next statement.derives ofOthers

end Program

theorem exists_program
    {tokens : Tokens}
    {statements : List Formulary.Statement}
    (derives : Grammar.Program tokens statements) :
    ∃ program : Program,
      program.tokens = tokens ∧ program.statements = statements := by
  induction derives with
  | done => exact ⟨.done, rfl, rfl⟩
  | @ended rest position => exact ⟨.ended position rest, rfl, rfl⟩
  | @skipped tokens statements position _ ofOthers =>
      obtain ⟨others, rfl, rfl⟩ := ofOthers
      exact ⟨.skipped position others, rfl, rfl⟩
  | next ofStatement _ ofOthers =>
      obtain ⟨statement, rfl, rfl⟩ := exists_statement ofStatement
      obtain ⟨others, rfl, rfl⟩ := ofOthers
      exact ⟨.next statement others, rfl, rfl⟩

/--
The derivation of an expression that stands alone, perhaps with a semicolon.
-/
structure Standalone where
  tree : Phrase .expression
  semicolon : Option Position
  ending : Position
  rest : Tokens

namespace Standalone

def tokens (standalone : Standalone) : Tokens :=
  standalone.tree.tokens ++ optional .semicolon standalone.semicolon
    ++ ⟨standalone.ending, .eof⟩ :: standalone.rest

def value (standalone : Standalone) : Expr :=
  standalone.tree.value

end Standalone

end Derivation

end Grammar

end Formulary
