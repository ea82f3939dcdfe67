import Formulary.Source.Parse.Statement

namespace Formulary

/-!
# The grammar of source text

Which lists of tokens are phrases of the language, and the trees they stand
for.  Operators bind, loosest first: comparisons, which do not chain; `+ -` and
`* /`, to the left; `^`, to the right; and unary minus.  Every node carries the
position of its first token.

The grammar is a relation and says nothing about how phrases are found.
-/

namespace Grammar

/-- The categories of phrases inside an expression. -/
inductive Category where
  /-- Expressions separated by commas, at least one. -/
  | list
  | expression
  | sum
  | term
  | power
  | unary
  | primary
  /-- Groups of subscripts in brackets, at least one. -/
  | subscripts
deriving Repr, DecidableEq

/-- A list of tokens with their positions. -/
abbrev Tokens := List (Located Token)

/--
Tokens that form a phrase of a category, and the trees they stand for: one tree
for a single expression, several for a list or for subscripts.
-/
inductive Derives : Category → Tokens → List Expr → Prop where
  | lastItem
      {tokens : Tokens}
      {item : Expr} :
      Derives .expression tokens [item] →
      Derives .list tokens [item]
  | moreItems
      {tokens rest : Tokens}
      {item : Expr}
      {items : List Expr}
      {position : Position} :
      Derives .expression tokens [item] →
      Derives .list rest items →
      Derives .list (tokens ++ ⟨position, .mark .comma⟩ :: rest) (item :: items)
  | oneSum
      {tokens : Tokens}
      {tree : Expr} :
      Derives .sum tokens [tree] →
      Derives .expression tokens [tree]
  | comparison
      {before after : Tokens}
      {left right : Expr}
      {op : BinaryOp}
      {position : Position} :
      op.isComparison = true →
      Derives .sum before [left] →
      Derives .sum after [right] →
      Derives .expression (before ++ ⟨position, .operator op⟩ :: after)
        [.combine op left right]
  | oneTerm
      {tokens : Tokens}
      {tree : Expr} :
      Derives .term tokens [tree] →
      Derives .sum tokens [tree]
  | moreTerms
      {before after : Tokens}
      {left right : Expr}
      {op : BinaryOp}
      {position : Position} :
      Parse.isAdditive op = true →
      Derives .sum before [left] →
      Derives .term after [right] →
      Derives .sum (before ++ ⟨position, .operator op⟩ :: after)
        [.combine op left right]
  | onePower
      {tokens : Tokens}
      {tree : Expr} :
      Derives .power tokens [tree] →
      Derives .term tokens [tree]
  | morePowers
      {before after : Tokens}
      {left right : Expr}
      {op : BinaryOp}
      {position : Position} :
      Parse.isMultiplicative op = true →
      Derives .term before [left] →
      Derives .power after [right] →
      Derives .term (before ++ ⟨position, .operator op⟩ :: after)
        [.combine op left right]
  | oneUnary
      {tokens : Tokens}
      {tree : Expr} :
      Derives .unary tokens [tree] →
      Derives .power tokens [tree]
  | raised
      {before after : Tokens}
      {base exponent : Expr}
      {position : Position} :
      Derives .unary before [base] →
      Derives .power after [exponent] →
      Derives .power (before ++ ⟨position, .operator .pow⟩ :: after)
        [.combine .pow base exponent]
  | onePrimary
      {tokens : Tokens}
      {tree : Expr} :
      Derives .primary tokens [tree] →
      Derives .unary tokens [tree]
  | negated
      {tokens : Tokens}
      {operand : Expr}
      {position : Position} :
      Derives .unary tokens [operand] →
      Derives .unary (⟨position, .operator .sub⟩ :: tokens)
        [.negate position operand]
  | literal
      {value : Value}
      {position : Position} :
      Derives .primary [⟨position, .literal value⟩] [.literal position value]
  | parenthesis
      {tokens : Tokens}
      {tree : Expr}
      {opening closing : Position} :
      Derives .expression tokens [tree] →
      Derives .primary
        (⟨opening, .mark .openParen⟩ :: tokens ++
          [⟨closing, .mark .closeParen⟩]) [tree]
  | name
      {spelling : String}
      {position : Position} :
      Derives .primary [⟨position, .name spelling⟩] [.name position spelling]
  | emptyCall
      {spelling : String}
      {position opening closing : Position} :
      Derives .primary
        [⟨position, .name spelling⟩, ⟨opening, .mark .openParen⟩,
          ⟨closing, .mark .closeParen⟩]
        [.call position spelling []]
  | call
      {spelling : String}
      {tokens : Tokens}
      {items : List Expr}
      {position opening closing : Position} :
      Derives .list tokens items →
      Derives .primary
        (⟨position, .name spelling⟩ :: ⟨opening, .mark .openParen⟩ :: tokens
          ++ [⟨closing, .mark .closeParen⟩])
        [.call position spelling items]
  | element
      {spelling : String}
      {tokens : Tokens}
      {indices : List Expr}
      {position : Position} :
      Derives .subscripts tokens indices →
      Derives .primary (⟨position, .name spelling⟩ :: tokens)
        [.element position spelling indices]
  | lastGroup
      {tokens : Tokens}
      {group : List Expr}
      {opening closing : Position} :
      Derives .list tokens group →
      Derives .subscripts
        (⟨opening, .mark .openBracket⟩ :: tokens ++
          [⟨closing, .mark .closeBracket⟩]) group
  | moreGroups
      {tokens rest : Tokens}
      {group groups : List Expr}
      {opening closing : Position} :
      Derives .list tokens group →
      Derives .subscripts rest groups →
      Derives .subscripts
        (⟨opening, .mark .openBracket⟩ :: tokens ++
          ⟨closing, .mark .closeBracket⟩ :: rest)
        (group ++ groups)

/-- Names separated by commas, at least one. -/
inductive Params : Tokens → List String → Prop where
  | last
      {name : String}
      {position : Position} :
      Params [⟨position, .name name⟩] [name]
  | more
      {name : String}
      {names : List String}
      {tokens : Tokens}
      {position comma : Position} :
      Params tokens names →
      Params (⟨position, .name name⟩ :: ⟨comma, .mark .comma⟩ :: tokens)
        (name :: names)

/--
Initializers and the mark that closes them, perhaps with a comma before it.
-/
inductive Elements (close : Mark) : Tokens → List Expr → Prop where
  | last
      {tokens : Tokens}
      {item : Expr}
      {closing : Position} :
      Derives .expression tokens [item] →
      Elements close (tokens ++ [⟨closing, .mark close⟩]) [item]
  | lastComma
      {tokens : Tokens}
      {item : Expr}
      {comma closing : Position} :
      Derives .expression tokens [item] →
      Elements close
        (tokens ++ [⟨comma, .mark .comma⟩, ⟨closing, .mark close⟩]) [item]
  | more
      {tokens rest : Tokens}
      {item : Expr}
      {items : List Expr}
      {comma : Position} :
      Derives .expression tokens [item] →
      Elements close rest items →
      Elements close (tokens ++ ⟨comma, .mark .comma⟩ :: rest) (item :: items)

/-- A point in parentheses. -/
inductive OnePoint : Tokens → Expr × Expr → Prop where
  | point
      {before after : Tokens}
      {x y : Expr}
      {opening comma closing : Position} :
      Derives .expression before [x] →
      Derives .expression after [y] →
      OnePoint
        (⟨opening, .mark .openParen⟩ :: before ++ ⟨comma, .mark .comma⟩ :: after
          ++ [⟨closing, .mark .closeParen⟩])
        (x, y)

/-- A comma that may be left out. -/
inductive OptionalComma : Tokens → Prop where
  | absent : OptionalComma []
  | present
      {position : Position} :
      OptionalComma [⟨position, .mark .comma⟩]

/-- Points and the brace that closes them, with or without commas after them. -/
inductive Points : Tokens → List (Expr × Expr) → Prop where
  | last
      {tokens comma : Tokens}
      {pair : Expr × Expr}
      {closing : Position} :
      OnePoint tokens pair →
      OptionalComma comma →
      Points (tokens ++ comma ++ [⟨closing, .mark .closeBrace⟩]) [pair]
  | more
      {tokens comma rest : Tokens}
      {pair : Expr × Expr}
      {others : List (Expr × Expr)} :
      OnePoint tokens pair →
      OptionalComma comma →
      Points rest others →
      Points (tokens ++ comma ++ rest) (pair :: others)

/-- What a statement that starts with a name declares or does. -/
inductive Named : Tokens → Action → Prop where
  | scalar
      {name : String}
      {tokens : Tokens}
      {value : Expr}
      {position equals : Position} :
      Derives .expression tokens [value] →
      Named (⟨position, .name name⟩ :: ⟨equals, .mark .assign⟩ :: tokens)
        (.scalar name value)
  | curve
      {name : String}
      {tokens : Tokens}
      {pairs : List (Expr × Expr)}
      {position equals opening : Position} :
      Points tokens pairs →
      Named
        (⟨position, .name name⟩ :: ⟨equals, .mark .assign⟩ ::
          ⟨opening, .mark .openBrace⟩ :: tokens)
        (.curve name pairs)
  | braced
      {name : String}
      {tokens : Tokens}
      {items : List Expr}
      {position equals opening : Position} :
      Elements .closeBrace tokens items →
      Named
        (⟨position, .name name⟩ :: ⟨equals, .mark .assign⟩ ::
          ⟨opening, .mark .openBrace⟩ :: tokens)
        (.array name none items)
  | bracketed
      {name : String}
      {tokens : Tokens}
      {items : List Expr}
      {position equals opening : Position} :
      Elements .closeBracket tokens items →
      Named
        (⟨position, .name name⟩ :: ⟨equals, .mark .assign⟩ ::
          ⟨opening, .mark .openBracket⟩ :: tokens)
        (.array name none items)
  | function
      {name : String}
      {params : List String}
      {before after : Tokens}
      {body : Expr}
      {position opening closing equals : Position} :
      Params before params →
      Derives .expression after [body] →
      Named
        (⟨position, .name name⟩ :: ⟨opening, .mark .openParen⟩ :: before
          ++ ⟨closing, .mark .closeParen⟩ :: ⟨equals, .mark .assign⟩ :: after)
        (.function name params body)
  | sizedBracketed
      {name : String}
      {before after : Tokens}
      {sizes items : List Expr}
      {position equals opening : Position} :
      Derives .subscripts before sizes →
      Elements .closeBracket after items →
      Named
        (⟨position, .name name⟩ :: before ++ ⟨equals, .mark .assign⟩
          :: ⟨opening, .mark .openBracket⟩ :: after)
        (.array name (some sizes) items)
  | sizedBraced
      {name : String}
      {before after : Tokens}
      {sizes items : List Expr}
      {position equals opening : Position} :
      Derives .subscripts before sizes →
      Elements .closeBrace after items →
      Named
        (⟨position, .name name⟩ :: before ++ ⟨equals, .mark .assign⟩
          :: ⟨opening, .mark .openBrace⟩ :: after)
        (.array name (some sizes) items)
  | assign
      {name : String}
      {before after : Tokens}
      {indices : List Expr}
      {value : Expr}
      {position equals : Position} :
      Derives .subscripts before indices →
      Derives .expression after [value] →
      Named
        (⟨position, .name name⟩ :: before ++ ⟨equals, .mark .assign⟩ :: after)
        (.assign name indices value)

/-- A statement with its semicolon. -/
inductive OneStatement : Tokens → Statement → Prop where
  | print
      {tokens : Tokens}
      {value : Expr}
      {position semicolon : Position} :
      Derives .expression tokens [value] →
      OneStatement
        (⟨position, .print⟩ :: tokens ++ [⟨semicolon, .mark .semicolon⟩])
        ⟨position, .print value⟩
  | named
      {first : Located Token}
      {tokens : Tokens}
      {action : Action}
      {semicolon : Position} :
      Named (first :: tokens) action →
      OneStatement (first :: tokens ++ [⟨semicolon, .mark .semicolon⟩])
        ⟨first.position, action⟩

/--
Statements up to the end of the text; semicolons between them are skipped.
-/
inductive Program : Tokens → List Statement → Prop where
  | done : Program [] []
  | ended
      {rest : Tokens}
      {position : Position} :
      Program (⟨position, .eof⟩ :: rest) []
  | skipped
      {tokens : Tokens}
      {statements : List Statement}
      {position : Position} :
      Program tokens statements →
      Program (⟨position, .mark .semicolon⟩ :: tokens) statements
  | next
      {tokens rest : Tokens}
      {statement : Statement}
      {statements : List Statement} :
      OneStatement tokens statement →
      Program rest statements →
      Program (tokens ++ rest) (statement :: statements)

/-! Every phrase has its own trees. -/

/-- A phrase is never empty. -/
theorem Derives.length_pos
    {category : Category}
    {tokens : Tokens}
    {trees : List Expr}
    (derives : Derives category tokens trees) :
    0 < tokens.length := by
  induction derives <;> first
    | assumption
    | exact Nat.succ_pos _
    | exact List.length_pos_iff.mpr (by simp)

/-- A phrase stands for at least one tree. -/
theorem Derives.trees_ne_nil
    {category : Category}
    {tokens : Tokens}
    {trees : List Expr}
    (derives : Derives category tokens trees) :
    trees ≠ [] := by
  induction derives <;> simp_all

end Grammar

end Formulary
