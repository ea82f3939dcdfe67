import Formulary.Proofs.Source.Acceptance

namespace Formulary

/-!
# Sources in other places

The tokens of a source that stands elsewhere have other positions and are
otherwise the same.  The trees they form carry the other positions and are
otherwise the same, too.
-/

/-- The same thing at another position. -/
def Located.relocate
    (move : Position → Position)
    (located : Located α) :
    Located α :=
  ⟨move located.position, located.item⟩

/-- Comments are left out wherever they stand. -/
theorem Token.clean_relocate
    (move : Position → Position)
    (tokens : List (Located Token)) :
    clean (tokens.map (Located.relocate move)) =
      (clean tokens).map (Located.relocate move) := by
  rw [clean, List.filter_map]
  rfl

namespace Position

/-- A move that goes along with every text that starts at a position. -/
def InStep (move : Position → Position) (position : Position) : Prop :=
  ∀ text, (move position).advance text = move (position.advance text)

/--
It is enough that a move goes along with every character, wherever a text can
lead.
-/
theorem inStep_of_step
    {move : Position → Position}
    (reached : Position → Prop)
    (stays : ∀ position c, reached position → reached (position.step c))
    (steps : ∀ position c,
      reached position → (move position).step c = move (position.step c))
    {position : Position}
    (starts : reached position) :
    InStep move position := by
  intro text
  induction text generalizing position with
  | nil => rfl
  | cons c rest inductionHypothesis =>
      have later := inductionHypothesis (stays position c starts)
      rw [← steps position c starts] at later
      exact later

/-- What goes along with a text goes along with what follows the text. -/
theorem InStep.advance
    {move : Position → Position}
    {position : Position}
    (inStep : InStep move position)
    (text : List Char) :
    InStep move (position.advance text) := by
  intro more
  have joined (first : Position) :
      (first.advance text).advance more = first.advance (text ++ more) :=
    List.foldl_append.symm
  rw [← inStep text, joined, joined, inStep]

end Position

/--
A text that starts elsewhere has the same tokens, or the same malformed lexeme,
elsewhere.
-/
theorem Token.scanFrom_relocate
    {move : Position → Position}
    {position : Position}
    (inStep : Position.InStep move position)
    (text : List Char) :
    scanFrom (move position) text =
      ((scanFrom position text).map (List.map (Located.relocate move))).mapError
        fun error => ⟨error.fault, move error.position⟩ := by
  fun_induction scanFrom position text with
  | case1 position =>
      rw [scanFrom]
      rfl
  | case2 position c rest isBlank inductionHypothesis =>
      have step : (move position).step c = move (position.step c) := inStep [c]
      rw [scanFrom, if_pos isBlank, step]
      exact inductionHypothesis (inStep.advance [c])
  | case3 position c rest notBlank issue fails =>
      rw [scanFrom, if_neg notBlank, fails]
      simp only [inStep _]
      rfl
  | case4 position c rest notBlank lexeme reads next tokens scanned
        inductionHypothesis =>
      have later := inductionHypothesis (inStep.advance _)
      rw [scanned] at later
      rw [scanFrom, if_neg notBlank, reads]
      simp only [inStep _, next] at later ⊢
      rw [later]
      rfl
  | case5 position c rest notBlank lexeme reads next error fails
        inductionHypothesis =>
      have later := inductionHypothesis (inStep.advance _)
      rw [fails] at later
      rw [scanFrom, if_neg notBlank, reads]
      simp only [inStep _, next] at later ⊢
      rw [later]
      rfl

namespace Expr

mutual

/-- The same tree at other positions. -/
def relocate (move : Position → Position) : Expr → Expr
  | .literal position value => .literal (move position) value
  | .name position spelling => .name (move position) spelling
  | .call position callee arguments =>
      .call (move position) callee (relocateAll move arguments)
  | .element position array indices =>
      .element (move position) array (relocateAll move indices)
  | .negate position operand => .negate (move position) (relocate move operand)
  | .binary position op left right =>
      .binary (move position) op (relocate move left) (relocate move right)

/-- The same trees at other positions. -/
def relocateAll (move : Position → Position) : List Expr → List Expr
  | [] => []
  | tree :: trees => relocate move tree :: relocateAll move trees

end

variable (move : Position → Position)

theorem relocateAll_eq_map (trees : List Expr) :
    relocateAll move trees = trees.map (relocate move) := by
  induction trees with
  | nil => rfl
  | cons tree trees inductionHypothesis =>
      rw [relocateAll, inductionHypothesis, List.map_cons]

theorem length_relocateAll (trees : List Expr) :
    (relocateAll move trees).length = trees.length := by
  rw [relocateAll_eq_map, List.length_map]

theorem position_relocate (tree : Expr) :
    (tree.relocate move).position = move tree.position := by
  cases tree <;> rfl

theorem relocate_combine
    (op : BinaryOp)
    (left right : Expr) :
    (combine op left right).relocate move =
      combine op (left.relocate move) (right.relocate move) := by
  simp only [combine, relocate, position_relocate]

/-- Both coordinates of a point at other positions. -/
def relocatePair (pair : Expr × Expr) : Expr × Expr :=
  (pair.1.relocate move, pair.2.relocate move)

end Expr

/-- The same statement with its trees at other positions. -/
def Action.relocate (move : Position → Position) : Action → Action
  | .scalar name value => .scalar name (value.relocate move)
  | .function name params body => .function name params (body.relocate move)
  | .curve name pairs => .curve name (pairs.map (Expr.relocatePair move))
  | .array name sizes elements =>
      .array name (sizes.map (List.map (Expr.relocate move)))
        (elements.map (Expr.relocate move))
  | .assign name indices value =>
      .assign name (indices.map (Expr.relocate move)) (value.relocate move)
  | .print value => .print (value.relocate move)

/-- The same statement at other positions. -/
def Statement.relocate
    (move : Position → Position)
    (statement : Statement) :
    Statement :=
  ⟨move statement.position, statement.action.relocate move⟩

section Twice

variable (first second : Position → Position)

mutual

theorem Expr.relocate_relocate (tree : Expr) :
    (tree.relocate first).relocate second = tree.relocate (second ∘ first) := by
  cases tree with
  | literal position value => rfl
  | name position name => rfl
  | call position name arguments =>
      simp [relocate, Expr.relocateAll_relocateAll arguments]
  | element position name indices =>
      simp [relocate, Expr.relocateAll_relocateAll indices]
  | negate position operand => simp [relocate, Expr.relocate_relocate operand]
  | binary position op left right =>
      simp [relocate, Expr.relocate_relocate left, Expr.relocate_relocate right]

theorem Expr.relocateAll_relocateAll (trees : List Expr) :
    relocateAll second (relocateAll first trees) =
      relocateAll (second ∘ first) trees := by
  cases trees with
  | nil => rfl
  | cons tree trees =>
      simp only [relocateAll, Expr.relocate_relocate tree,
        Expr.relocateAll_relocateAll trees]

end

theorem Action.relocate_relocate (action : Action) :
    (action.relocate first).relocate second =
      action.relocate (second ∘ first) := by
  have trees :
      Expr.relocate second ∘ Expr.relocate first =
        Expr.relocate (second ∘ first) :=
    funext (Expr.relocate_relocate first second)
  have lists :
      List.map (Expr.relocate second) ∘ List.map (Expr.relocate first) =
        List.map (Expr.relocate (second ∘ first)) := by
    funext items
    simp only [Function.comp_apply, List.map_map, trees]
  have pairs :
      Expr.relocatePair second ∘ Expr.relocatePair first =
        Expr.relocatePair (second ∘ first) := by
    funext pair
    simp only [Function.comp, Expr.relocatePair, Expr.relocate_relocate]
  cases action <;> simp [relocate, Expr.relocate_relocate, trees, lists, pairs]

theorem Statement.relocate_relocate (statement : Statement) :
    (statement.relocate first).relocate second =
      statement.relocate (second ∘ first) := by
  simp only [relocate, Action.relocate_relocate, Function.comp]

end Twice

mutual

theorem Expr.relocate_id (tree : Expr) : tree.relocate id = tree := by
  cases tree with
  | literal position value => rfl
  | name position name => rfl
  | call position name arguments =>
      simp [relocate, Expr.relocateAll_id arguments]
  | element position name indices =>
      simp [relocate, Expr.relocateAll_id indices]
  | negate position operand => simp [relocate, Expr.relocate_id operand]
  | binary position op left right =>
      simp [relocate, Expr.relocate_id left, Expr.relocate_id right]

theorem Expr.relocateAll_id
    (trees : List Expr) :
    Expr.relocateAll id trees = trees := by
  cases trees with
  | nil => rfl
  | cons tree trees =>
      simp only [relocateAll, Expr.relocate_id tree, Expr.relocateAll_id trees]

end

theorem Action.relocate_id (action : Action) : action.relocate id = action := by
  have trees : Expr.relocate id = id := funext Expr.relocate_id
  have pairs : Expr.relocatePair id = id := by
    funext pair
    simp only [Expr.relocatePair, Expr.relocate_id, id]
  cases action <;> simp [relocate, trees, pairs]

theorem Statement.relocate_id
    (statement : Statement) :
    statement.relocate id = statement := by
  simp only [relocate, Action.relocate_id, id]

/-- Statements that are moved and moved back. -/
theorem Statement.map_relocate_back
    {move back : Position → Position}
    (cancels : back ∘ move = id)
    (program : List Statement) :
    (program.map (relocate move)).map (relocate back) = program := by
  have returned : relocate back ∘ relocate move = id := by
    funext statement
    rw [Function.comp_apply, relocate_relocate, cancels, relocate_id]
    rfl
  rw [List.map_map, returned, List.map_id]

namespace Grammar

variable (move : Position → Position)

/--
Tokens at other positions form the same phrases, whose trees are at other
positions.
-/
theorem Derives.relocate
    {category : Category}
    {tokens : Tokens}
    {trees : List Expr}
    (derives : Derives category tokens trees) :
    Derives category (tokens.map (Located.relocate move))
      (trees.map (Expr.relocate move)) := by
  induction derives with
  | lastItem _ item => exact .lastItem item
  | moreItems _ _ item rest =>
      rw [List.map_append]
      exact .moreItems item rest
  | oneSum _ tree => exact .oneSum tree
  | comparison compares _ _ left right =>
      rw [List.map_append, List.map_singleton, Expr.relocate_combine]
      exact .comparison compares left right
  | oneTerm _ tree => exact .oneTerm tree
  | moreTerms additive _ _ left right =>
      rw [List.map_append, List.map_singleton, Expr.relocate_combine]
      exact .moreTerms additive left right
  | onePower _ tree => exact .onePower tree
  | morePowers multiplicative _ _ left right =>
      rw [List.map_append, List.map_singleton, Expr.relocate_combine]
      exact .morePowers multiplicative left right
  | oneUnary _ tree => exact .oneUnary tree
  | raised _ _ base exponent =>
      rw [List.map_append, List.map_singleton, Expr.relocate_combine]
      exact .raised base exponent
  | onePrimary _ tree => exact .onePrimary tree
  | negated _ operand => exact .negated operand
  | literal => exact .literal
  | parenthesis _ tree =>
      rw [List.map_append]
      exact .parenthesis tree
  | name => exact .name
  | emptyCall => exact .emptyCall
  | call _ items =>
      rw [← Expr.relocateAll_eq_map] at items
      rw [List.map_append]
      exact .call items
  | element _ indices =>
      rw [← Expr.relocateAll_eq_map] at indices
      exact .element indices
  | lastGroup _ group =>
      rw [List.map_append]
      exact .lastGroup group
  | moreGroups _ _ group groups =>
      rw [List.map_append, List.map_append]
      exact .moreGroups group groups

theorem Params.relocate
    {tokens : Tokens}
    {names : List String}
    (derives : Params tokens names) :
    Params (tokens.map (Located.relocate move)) names := by
  induction derives with
  | last => exact .last
  | more _ others => exact .more others

theorem Elements.relocate
    {close : Mark}
    {tokens : Tokens}
    {items : List Expr}
    (derives : Elements close tokens items) :
    Elements close (tokens.map (Located.relocate move))
      (items.map (Expr.relocate move)) := by
  induction derives with
  | last item =>
      rw [List.map_append]
      exact .last (item.relocate move)
  | lastComma item =>
      rw [List.map_append]
      exact .lastComma (item.relocate move)
  | more item _ others =>
      rw [List.map_append]
      exact .more (item.relocate move) others

theorem OnePoint.relocate
    {tokens : Tokens}
    {pair : Expr × Expr}
    (derives : OnePoint tokens pair) :
    OnePoint (tokens.map (Located.relocate move))
      (Expr.relocatePair move pair) := by
  cases derives with
  | point x y =>
      rw [List.map_append, List.map_append]
      exact .point (x.relocate move) (y.relocate move)

theorem OptionalComma.relocate
    {tokens : Tokens}
    (derives : OptionalComma tokens) :
    OptionalComma (tokens.map (Located.relocate move)) := by
  cases derives with
  | absent => exact .absent
  | present => exact .present

theorem Points.relocate
    {tokens : Tokens}
    {pairs : List (Expr × Expr)}
    (derives : Points tokens pairs) :
    Points (tokens.map (Located.relocate move))
      (pairs.map (Expr.relocatePair move)) := by
  induction derives with
  | last point comma =>
      rw [List.map_append, List.map_append]
      exact .last (point.relocate move) (comma.relocate move)
  | more point comma _ others =>
      rw [List.map_append, List.map_append]
      exact .more (point.relocate move) (comma.relocate move) others

theorem Named.relocate
    {tokens : Tokens}
    {action : Action}
    (derives : Named tokens action) :
    Named (tokens.map (Located.relocate move)) (action.relocate move) := by
  cases derives with
  | scalar value => exact .scalar (value.relocate move)
  | curve points => exact .curve (points.relocate move)
  | braced items => exact .braced (items.relocate move)
  | bracketed items => exact .bracketed (items.relocate move)
  | function params body =>
      rw [List.map_append]
      exact .function (params.relocate move) (body.relocate move)
  | sizedBracketed sizes items =>
      rw [List.map_append]
      exact .sizedBracketed (sizes.relocate move) (items.relocate move)
  | sizedBraced sizes items =>
      rw [List.map_append]
      exact .sizedBraced (sizes.relocate move) (items.relocate move)
  | assign indices value =>
      rw [List.map_append]
      exact .assign (indices.relocate move) (value.relocate move)

theorem OneStatement.relocate
    {tokens : Tokens}
    {statement : Statement}
    (derives : OneStatement tokens statement) :
    OneStatement (tokens.map (Located.relocate move))
      (statement.relocate move) := by
  cases derives with
  | print value =>
      rw [List.map_append]
      exact .print (value.relocate move)
  | named declaration =>
      rw [List.map_append]
      exact .named (declaration.relocate move)

/-- Tokens at other positions form the same programs. -/
theorem Program.relocate
    {tokens : Tokens}
    {statements : List Statement}
    (derives : Program tokens statements) :
    Program (tokens.map (Located.relocate move))
      (statements.map (Statement.relocate move)) := by
  induction derives with
  | done => exact .done
  | ended => exact .ended
  | skipped _ others => exact .skipped others
  | next first _ others =>
      rw [List.map_append]
      exact .next (first.relocate move) others

/-- Tokens form at most one program. -/
theorem Program.unique
    {tokens : Tokens}
    {statements others : List Statement}
    (derives : Program tokens statements)
    (derivesToo : Program tokens others) :
    statements = others := by
  have reads := derives.complete (Nat.le_refl _) (Nat.lt_succ_self _) none
  have readsToo := derivesToo.complete (Nat.le_refl _) (Nat.lt_succ_self _) none
  exact Except.ok.inj (reads.symm.trans readsToo)

/-- When tokens can be moved back, they form no other programs than before. -/
theorem Program.relocate_iff
    {move back : Position → Position}
    (cancels : back ∘ move = id)
    {tokens : Tokens}
    {moved : List Statement} :
    Program (tokens.map (Located.relocate move)) moved ↔
      ∃ statements, Program tokens statements ∧
        moved = statements.map (Statement.relocate move) := by
  constructor
  · intro derives
    have returned : (tokens.map (Located.relocate move)).map
        (Located.relocate back) = tokens := by
      have each : (Located.relocate back ∘ Located.relocate move :
          Located Token → _) = id := by
        funext token
        exact congrArg (Located.mk · token.item)
          (congrFun cancels token.position)
      rw [List.map_map, each, List.map_id]
    have original := derives.relocate back
    rw [returned] at original
    exact ⟨_, original, derives.unique (original.relocate move)⟩
  · rintro ⟨statements, derives, rfl⟩
    exact derives.relocate move

end Grammar

end Formulary
