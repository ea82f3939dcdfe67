import Formulary.Source.Expr
import Formulary.Source.Token
import Formulary.Text.Column
import Formulary.Text.Outline

namespace Formulary

/-!
# Outlines of source

How tokens and syntax trees are shown for inspection.
-/

open Text

namespace Outline

/-- Label of an operator token. -/
def operatorLabel : BinaryOp → String
  | .add => "Plus"
  | .sub => "Minus"
  | .mul => "Star"
  | .div => "Slash"
  | .pow => "Caret"
  | .lt => "Lt"
  | .le => "LtEq"
  | .gt => "Gt"
  | .ge => "GtEq"
  | .eq => "EqEq"
  | .ne => "NotEq"

/-- Label of a mark. -/
def markLabel : Mark → String
  | .assign => "Assign"
  | .semicolon => "Semicolon"
  | .comma => "Comma"
  | .openParen => "LParen"
  | .closeParen => "RParen"
  | .openBracket => "LBracket"
  | .closeBracket => "RBracket"
  | .openBrace => "LBrace"
  | .closeBrace => "RBrace"

/-- Label of an operator in a tree. -/
def treeLabel : BinaryOp → String
  | .add => "Add"
  | .sub => "Sub"
  | .mul => "Mul"
  | .div => "Div"
  | .pow => "Pow"
  | .lt => "Lt"
  | .le => "Le"
  | .gt => "Gt"
  | .ge => "Ge"
  | .eq => "Eq"
  | .ne => "Ne"

/-- Labels of literals, by the type of their value. -/
structure LiteralLabels where
  int : String
  double : String
  string : String
  bool : String

/-- A literal under the label of its type. -/
def ofLiteral (labels : LiteralLabels) : Value → Outline
  | .int n => .tuple labels.int [.atom (toString n.toInt)]
  | .double x => .tuple labels.double [.atom (NumberLayout.marked.write x)]
  | .string text => .tuple labels.string [.string text]
  | .bool truth =>
      .tuple labels.bool [.atom (if truth then "true" else "false")]

def ofToken : Token → Outline
  | .literal value => ofLiteral ⟨"Integer", "Float", "String", "Bool"⟩ value
  | .operator op => .atom (operatorLabel op)
  | .mark punctuation => .atom (markLabel punctuation)
  | .print => .atom "Print"
  | .name spelling => .tuple "Ident" [.string spelling]
  | .comment text => .tuple "Comment" [.string text]
  | .eof => .atom "Eof"

def ofPosition (position : Position) : Outline :=
  .record "Span" [("line", .nat position.line), ("col", .nat position.column)]

/-- A node of a tree: what it is and where it begins. -/
def node (label : String) (kind : Outline) (position : Position) : Outline :=
  .record label [("kind", kind), ("span", ofPosition position)]

mutual

def ofExpr : Expr → Outline
  | .literal position value =>
      node "Expr" (ofLiteral ⟨"Int", "Double", "Str", "Bool"⟩ value) position
  | .name position name => node "Expr" (.tuple "Name" [.string name]) position
  | .call position name arguments =>
      node "Expr" (.record "Call"
        [("name", .string name), ("args", .list (ofExprs arguments))]) position
  | .element position name indices =>
      node "Expr" (.record "Index"
        [("name", .string name), ("indices", .list (ofExprs indices))]) position
  | .negate position operand =>
      node "Expr" (.tuple "Negate" [ofExpr operand]) position
  | .binary position op left right =>
      node "Expr"
        (.record "Binary"
          [("op", .atom (treeLabel op)), ("lhs", ofExpr left),
            ("rhs", ofExpr right)])
        position

def ofExprs : List Expr → List Outline
  | [] => []
  | expr :: rest => ofExpr expr :: ofExprs rest

end

def ofPoint (point : Expr × Expr) : Outline :=
  .tuple "" [ofExpr point.1, ofExpr point.2]

def ofSizes : Option (List Expr) → Outline
  | none => .atom "None"
  | some sizes => .tuple "Some" [.list (ofExprs sizes)]

def ofAction : Action → Outline
  | .scalar name value =>
      .record "Scalar" [("name", .string name), ("value", ofExpr value)]
  | .function name params body =>
      .record "Function"
        [("name", .string name), ("params", .list (params.map .string)),
          ("body", ofExpr body)]
  | .curve name points =>
      .record "Pwl"
        [("name", .string name), ("points", .list (points.map ofPoint))]
  | .array name sizes elements =>
      .record "Array"
        [("name", .string name), ("sizes", ofSizes sizes),
          ("elements", .list (ofExprs elements))]
  | .assign name indices value =>
      .record "ElementAssign"
        [("name", .string name), ("indices", .list (ofExprs indices)),
          ("value", ofExpr value)]
  | .print value => .tuple "Print" [ofExpr value]

def ofStatement (statement : Statement) : Outline :=
  node "Stmt" (ofAction statement.action) statement.position

def ofStatements (statements : List Statement) : Outline :=
  .record "Program" [("statements", .list (statements.map ofStatement))]

end Outline

end Formulary
