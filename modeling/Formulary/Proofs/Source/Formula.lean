import Formulary.Cell.Formula
import Formulary.Proofs.Compile.Restores
import Formulary.Proofs.Source.Literals

namespace Formulary

open Token

/-!
# Formulas that read back

The formula of a compiled program is read, wherever it stands, as a phrase of
the category its binding asks for, and the tree of that phrase compiles to the
program again.
-/

/-- The phrases that bind as tightly as a piece of formula. -/
def Binding.category : Binding → Grammar.Category
  | .comparison => .expression
  | .additive => .sum
  | .term => .term
  | .power => .power
  | .unary => .unary
  | .primary => .primary

namespace Grammar

/--
A text that is read, wherever it stands, as a phrase with a given property.
-/
def ReadsAs
    (phrase : Tokens → α → Prop)
    (text : List Char)
    (holds : α → Prop) :
    Prop :=
  ∃ tokens, Spells Delimited text tokens ∧
    ∀ located : Tokens, located.map Located.item = tokens →
      ∃ a, phrase located a ∧ holds a

/-- A phrase that stands for one tree. -/
def Single (category : Category) (tokens : Tokens) (tree : Expr) : Prop :=
  Derives category tokens [tree]

/-- A text that is read as a phrase has this property, too. -/
theorem ReadsAs.imp
    {phrase : Tokens → α → Prop}
    {other : Tokens → β → Prop}
    {text : List Char}
    {holds : α → Prop}
    {wanted : β → Prop}
    (reads : ReadsAs phrase text holds)
    (implies :
      ∀ tokens a, phrase tokens a → holds a → ∃ b, other tokens b ∧ wanted b) :
    ReadsAs other text wanted := by
  obtain ⟨tokens, spells, derives⟩ := reads
  refine ⟨tokens, spells, ?_⟩
  intro located items
  obtain ⟨a, isPhrase, has⟩ := derives located items
  exact implies located a isPhrase has

/--
Texts with a separator between them are read as a list, when the list is built
from its items and the tokens of separators.
-/
theorem readsAs_intercalate
    {one : Tokens → α → Prop}
    {many : Tokens → List α → Prop}
    {means : β → α → Prop}
    {separator : String}
    {between : List Token}
    (spellsSeparator : Spells Anything separator.toList between)
    (delimits : ∀ rest, Delimited (separator.toList ++ rest))
    (last : ∀ tokens a, one tokens a → many tokens [a])
    (more :
      ∀ (tokens middle rest : Tokens) (a : α) (others : List α),
        one tokens a → middle.map Located.item = between → many rest others →
          many (tokens ++ (middle ++ rest)) (a :: others))
    {texts : List String}
    {meanings : List β}
    (reads :
      List.Forall₂
        (fun (text : String) meaning => ReadsAs one text.toList (means meaning))
        texts meanings)
    (given : texts ≠ []) :
    ReadsAs many (separator.intercalate texts).toList
      (List.Forall₂ means meanings) := by
  induction reads with
  | nil => exact absurd rfl given
  | @cons text meaning texts meanings first rest inductionHypothesis =>
      obtain ⟨tokens, spells, isOne⟩ := first
      cases texts with
      | nil =>
          cases rest
          rw [String.intercalate_singleton]
          refine ⟨tokens, spells, ?_⟩
          intro located items
          obtain ⟨a, isItem, has⟩ := isOne located items
          exact ⟨[a], last located a isItem, .cons has .nil⟩
      | cons second others =>
          obtain ⟨moreTokens, spellsMore, isMany⟩ :=
            inductionHypothesis (by simp)
          have spellsRest :=
            spellsSeparator.append spellsMore fun _ _ => trivial
          have spellsAll := spells.append spellsRest fun rest _ => by
            rw [List.append_assoc]
            exact delimits _
          rw [String.intercalate_cons_cons, String.append_assoc,
            String.toList_append, String.toList_append]
          refine ⟨_, spellsAll, ?_⟩
          intro located items
          obtain ⟨before, following, rfl, beforeItems, followingItems⟩ :=
            List.map_eq_append_iff.mp items
          obtain ⟨middle, after, rfl, middleItems, afterItems⟩ :=
            List.map_eq_append_iff.mp followingItems
          obtain ⟨a, isItem, has⟩ := isOne before beforeItems
          obtain ⟨items, areItems, allHave⟩ := isMany after afterItems
          exact ⟨a :: items,
            more before middle after a items isItem middleItems areItems,
            .cons has allHave⟩

/-- Tokens that start with a given one, and their positions. -/
theorem exists_of_map_item_cons
    {located : Tokens}
    {token : Token}
    {tokens : List Token}
    (items : located.map Located.item = token :: tokens) :
    ∃ position rest,
      located = ⟨position, token⟩ :: rest ∧ rest.map Located.item = tokens := by
  obtain ⟨⟨position, item⟩, rest, rfl, rfl, restItems⟩ :=
    List.map_eq_cons_iff.mp items
  exact ⟨position, rest, rfl, restItems⟩

/-- One token and its position. -/
theorem exists_of_map_item_singleton
    {located : Tokens}
    {token : Token}
    (items : located.map Located.item = [token]) :
    ∃ position, located = [⟨position, token⟩] := by
  obtain ⟨position, rest, rfl, restItems⟩ := exists_of_map_item_cons items
  obtain rfl := List.map_eq_nil_iff.mp restItems
  exact ⟨position, rfl⟩

/-- A text in front of a delimiter. -/
theorem fits_cons
    {later : List Char → Prop}
    {c : Char}
    (member : c ∈ delimiters)
    (text : List Char) :
    ∀ rest, later rest → Delimited ((c :: text) ++ rest) :=
  fun rest _ => delimited_cons member (text ++ rest)

theorem spells_blank : Spells Anything [' '] [] :=
  Spells.blank (by decide)

theorem spells_comma : Spells Anything ", ".toList [.mark .comma] :=
  (Lexeme.spells_mark .comma (by decide)).append spells_blank fun _ _ => trivial

section Expressions

variable
  {signatures : Signatures}
  {params : List String}

/--
A text that is read as an expression of a category, which restores a program.
-/
def FormulaOf
    (signatures : Signatures)
    (params : List String)
    (category : Category)
    (text : List Char)
    (code : Code) : Prop :=
  ReadsAs (Single category) text (Compile.Restores signatures params code)

/-- A literal without a sign. -/
theorem spells_literal
    {value : Value}
    (lexical : (Token.literal value).Lexical) :
    Spells Delimited value.literal.toList [.literal value] := by
  cases value with
  | int n =>
      have written :
          (Value.int n).literal.toList = Nat.toDigits 10 n.toInt.natAbs := by
        have nonnegative : ¬ n.toInt < 0 := Int.not_lt.mpr lexical
        rw [Value.literal, Value.writeWith, toList_toString_int,
          if_neg nonnegative, List.nil_append]
      rw [written]
      exact Lexeme.spells_integer lexical
  | double x => exact Lexeme.spells_double lexical.1 lexical.2
  | string text => exact (Lexeme.spells_string text).weaken fun _ _ => trivial
  | bool truth => exact Lexeme.spells_bool truth

theorem formula_literal
    {value : Value}
    (lexical : (Token.literal value).Lexical) :
    FormulaOf signatures params .primary value.literal.toList
      (Code.push value) := by
  refine ⟨[.literal value], spells_literal lexical, ?_⟩
  intro located items
  obtain ⟨position, rfl⟩ := exists_of_map_item_singleton items
  exact ⟨.literal position value, .literal,
    Compile.restores_literal lexical position⟩

/-- A literal with a sign is written as one without behind a minus. -/
theorem formula_negatedLiteral
    {value negated : Value}
    (lexical : (Token.literal value).Lexical)
    (folds :
      ∀ position,
        Compile.negatedLiteral? (.literal position value) = some negated)
    (notZero : negated ≠ .int 0)
    (written : negated.literal.toList = '-' :: value.literal.toList) :
    FormulaOf signatures params .unary negated.literal.toList
      (Code.push negated) := by
  rw [written]
  refine ⟨[.operator .sub, .literal value],
    Lexeme.spells_minus.append (spells_literal lexical) fun _ _ => trivial, ?_⟩
  intro located items
  obtain ⟨position, rest, rfl, restItems⟩ := exists_of_map_item_cons items
  obtain ⟨inner, rfl⟩ := exists_of_map_item_singleton restItems
  exact ⟨.negate position (.literal inner value),
    .negated (.onePrimary .literal),
    Compile.restores_negatedLiteral (folds inner) notZero⟩

theorem formula_name
    {name : String}
    (isName : Lexeme.IsName name)
    (resolved : Compile.valueOf signatures params name = .ok (.variable name)) :
    FormulaOf signatures params .primary name.toList [.variable name] := by
  refine ⟨[.name name], Lexeme.spells_name isName, ?_⟩
  intro located items
  obtain ⟨position, rfl⟩ := exists_of_map_item_singleton items
  exact ⟨.name position name, .name, Compile.restores_name resolved position⟩

/-- A phrase of a category is one of every category that binds less tightly. -/
theorem Derives.loosen
    {tight loose : Binding}
    (looser : loose.strength ≤ tight.strength)
    {tokens : Tokens}
    {tree : Expr}
    (derives : Derives tight.category tokens [tree]) :
    Derives loose.category tokens [tree] := by
  have toUnary (primary : Derives .primary tokens [tree]) :
      Derives .unary tokens [tree] :=
    .onePrimary primary
  have toPower (unary : Derives .unary tokens [tree]) :
      Derives .power tokens [tree] :=
    .oneUnary unary
  have toTerm (power : Derives .power tokens [tree]) :
      Derives .term tokens [tree] :=
    .onePower power
  have toSum (term : Derives .term tokens [tree]) :
      Derives .sum tokens [tree] :=
    .oneTerm term
  have toExpression (sum : Derives .sum tokens [tree]) :
      Derives .expression tokens [tree] :=
    .oneSum sum
  cases tight <;> cases loose <;>
    simp only [Binding.strength, Binding.category] at * <;>
    first
      | exact derives
      | omega
      | grind

/-- Every formula is an expression. -/
theorem FormulaOf.asExpression
    {binding : Binding}
    {text : List Char}
    {code : Code}
    (formula : FormulaOf signatures params binding.category text code) :
    FormulaOf signatures params .expression text code := by
  refine formula.imp fun tokens tree derives restores => ⟨tree, ?_, restores⟩
  have loose : Derives Binding.comparison.category tokens [tree] :=
    Derives.loosen (Nat.zero_le _) derives
  exact loose

/-- An operand is read as tightly as its place asks for. -/
theorem FormulaOf.asOperand
    {phrase : Phrase}
    {code : Code}
    (formula : FormulaOf signatures params phrase.binding.category
      phrase.text.toList code)
    (least : Binding) :
    FormulaOf signatures params least.category
      (phrase.asOperand least).toList code := by
  unfold Phrase.asOperand
  split
  · rename_i tight
    refine formula.imp fun tokens tree derives restores => ⟨tree, ?_, restores⟩
    exact Derives.loosen tight derives
  · obtain ⟨tokens, spells, reads⟩ := formula
    have spellsAll :
        Spells Delimited ("(" ++ phrase.text ++ ")").toList
          ([.mark .openParen] ++ tokens ++ [.mark .closeParen]) := by
      rw [String.toList_append, String.toList_append]
      refine Spells.append ?_
        ((Lexeme.spells_mark .closeParen (by decide)).weaken fun _ _ => trivial)
        (fits_cons (by decide) [])
      exact (Lexeme.spells_mark .openParen (by decide)).append spells
        fun _ _ => trivial
    refine ⟨_, spellsAll, ?_⟩
    intro located items
    obtain ⟨inside, closed, rfl, insideItems, closedItems⟩ :=
      List.map_eq_append_iff.mp items
    obtain ⟨opening, inner, rfl, innerItems⟩ :=
      exists_of_map_item_cons insideItems
    obtain ⟨closing, rfl⟩ := exists_of_map_item_singleton closedItems
    obtain ⟨tree, derives, restores⟩ := reads inner innerItems
    refine ⟨tree, ?_, restores⟩
    have innerDerives : Derives Binding.comparison.category inner [tree] :=
      Derives.loosen (Nat.zero_le _) derives
    have inParenthesis : Derives Binding.primary.category
        (⟨opening, .mark .openParen⟩ :: inner ++ [⟨closing, .mark .closeParen⟩])
        [tree] :=
      .parenthesis innerDerives
    exact Derives.loosen (by cases least <;> decide) inParenthesis

/-- A minus in front of an operand. -/
theorem formula_negate
    {phrase : Phrase}
    {code : Code}
    (formula : FormulaOf signatures params phrase.binding.category
      phrase.text.toList code)
    (endsInZero : code.endsInZero false = true → code = Code.push (.int 0))
    (onlyZero :
      ∀ {inner : Position} {value negated : Value},
        (Token.literal value).Lexical →
        code = Code.push value →
        Compile.negatedLiteral? (.literal inner value) = some negated →
          value = .int 0) :
    FormulaOf signatures params .unary ("-" ++ phrase.asOperand .primary).toList
      (code ++ [.op .negate]) := by
  obtain ⟨tokens, spells, reads⟩ := formula.asOperand .primary
  have spellsAll :
      Spells Delimited ("-" ++ phrase.asOperand .primary).toList
        ([.operator .sub] ++ tokens) := by
    rw [String.toList_append]
    exact Lexeme.spells_minus.append spells fun _ _ => trivial
  refine ⟨_, spellsAll, ?_⟩
  intro located items
  obtain ⟨position, rest, rfl, restItems⟩ := exists_of_map_item_cons items
  obtain ⟨tree, derives, restores⟩ := reads rest restItems
  exact ⟨.negate position tree, .negated (.onePrimary derives),
    Compile.restores_negate restores endsInZero onlyZero position⟩

/-- An operator between two texts. -/
theorem spells_between
    {left right : String}
    {leftTokens rightTokens : List Token}
    (spellsLeft : Spells Delimited left.toList leftTokens)
    (op : BinaryOp)
    (spellsRight : Spells Delimited right.toList rightTokens) :
    Spells Delimited (left ++ " " ++ op.symbol ++ " " ++ right).toList
      (leftTokens ++ .operator op :: rightTokens) := by
  have spellsOperator :
      Spells Delimited ([' '] ++ (op.symbol.toList ++ ([' '] ++ right.toList)))
        ([] ++ ([.operator op] ++ ([] ++ rightTokens))) := by
    refine spells_blank.append ?_ fun _ _ => trivial
    refine (Lexeme.spells_operator op).append ?_ fun _ _ => rfl
    exact spells_blank.append spellsRight fun _ _ => trivial
  have spellsAll := spellsLeft.append spellsOperator (fits_cons (by decide) _)
  simp only [String.toList_append]
  simpa using spellsAll

/--
A tree with an operator between its operands, by the category of the operator.
-/
theorem derives_binary
    {op : BinaryOp}
    {before after : Tokens}
    {left right : Expr}
    {position : Position}
    (leftDerives : Derives (Phrase.bindingOf op).2.1.category before [left])
    (rightDerives : Derives (Phrase.bindingOf op).2.2.category after [right]) :
    Derives (Phrase.bindingOf op).1.category
      (before ++ ⟨position, .operator op⟩ :: after)
      [.combine op left right] := by
  cases op with
  | add | sub => exact .moreTerms rfl leftDerives rightDerives
  | mul | div => exact .morePowers rfl leftDerives rightDerives
  | pow => exact .raised leftDerives rightDerives
  | lt | le | gt | ge | eq | ne =>
      exact .comparison rfl leftDerives rightDerives

theorem formula_binary
    {op : BinaryOp}
    {left right : Phrase}
    {leftCode rightCode : Code}
    (formulaLeft : FormulaOf signatures params left.binding.category
      left.text.toList leftCode)
    (formulaRight : FormulaOf signatures params right.binding.category
      right.text.toList rightCode)
    (fresh : rightCode.StartsFresh)
    (notSquare : op = .pow → rightCode ≠ Code.push (.int 2)) :
    FormulaOf signatures params (Phrase.binary op left right).binding.category
      (Phrase.binary op left right).text.toList
      (leftCode ++ rightCode ++ [.op (.binary op)]) := by
  obtain ⟨leftTokens, spellsLeft, readsLeft⟩ :=
    formulaLeft.asOperand (Phrase.bindingOf op).2.1
  obtain ⟨rightTokens, spellsRight, readsRight⟩ :=
    formulaRight.asOperand (Phrase.bindingOf op).2.2
  refine ⟨_, spells_between spellsLeft op spellsRight, ?_⟩
  intro located items
  obtain ⟨before, rest, rfl, beforeItems, restItems⟩ :=
    List.map_eq_append_iff.mp items
  obtain ⟨position, after, rfl, afterItems⟩ := exists_of_map_item_cons restItems
  obtain ⟨leftTree, leftDerives, restoresLeft⟩ := readsLeft before beforeItems
  obtain ⟨rightTree, rightDerives, restoresRight⟩ := readsRight after afterItems
  exact ⟨_, derives_binary leftDerives rightDerives,
    Compile.restores_binary restoresLeft restoresRight fresh notSquare _⟩

theorem formula_square
    {phrase : Phrase}
    {code : Code}
    (formula : FormulaOf signatures params phrase.binding.category
      phrase.text.toList code) :
    FormulaOf signatures params .power
      (phrase.asOperand .unary ++ " ^ 2").toList (code ++ [.op .square]) := by
  obtain ⟨tokens, spells, reads⟩ := formula.asOperand .unary
  have lexical : (Token.literal (.int 2)).Lexical :=
    (by decide : 0 ≤ (2 : Int64).toInt)
  have written :
      phrase.asOperand .unary ++ " ^ 2" =
        phrase.asOperand .unary ++ " " ++ BinaryOp.pow.symbol ++ " " ++
          (Value.int 2).literal := by
    simp only [String.append_assoc]
    rfl
  rw [written]
  refine ⟨_, spells_between spells .pow (spells_literal lexical), ?_⟩
  intro located items
  obtain ⟨before, rest, rfl, beforeItems, restItems⟩ :=
    List.map_eq_append_iff.mp items
  obtain ⟨position, after, rfl, afterItems⟩ := exists_of_map_item_cons restItems
  obtain ⟨inner, rfl⟩ := exists_of_map_item_singleton afterItems
  obtain ⟨tree, derives, restores⟩ := reads before beforeItems
  exact ⟨_, .raised derives (.oneUnary (.onePrimary .literal)),
    Compile.restores_square restores _ inner⟩

/-! Arguments and indices, with commas between them. -/

/-- Expressions with commas between them. -/
theorem readsAs_list
    {texts : List String}
    {codes : List Code}
    (formulas :
      List.Forall₂
        (fun (text : String) code =>
          FormulaOf signatures params .expression text.toList code)
        texts codes)
    (given : texts ≠ []) :
    ReadsAs (Derives .list) (", ".intercalate texts).toList
      (List.Forall₂ (Compile.Restores signatures params) codes) := by
  refine readsAs_intercalate spells_comma
    (fun rest => delimited_cons (by decide) _) ?_ ?_ formulas given
  · intro tokens tree derives
    exact .lastItem derives
  · intro tokens middle rest tree others derives items restDerives
    obtain ⟨comma, rfl⟩ := exists_of_map_item_singleton items
    exact .moreItems derives restDerives

/-- Expressions in brackets. -/
theorem readsAs_subscripts
    {texts : List String}
    {codes : List Code}
    (formulas :
      List.Forall₂
        (fun (text : String) code =>
          FormulaOf signatures params .expression text.toList code)
        texts codes)
    (given : texts ≠ []) :
    ReadsAs (Derives .subscripts)
      (String.join (texts.map fun text => "[" ++ text ++ "]")).toList
      (List.Forall₂ (Compile.Restores signatures params) codes) := by
  induction formulas with
  | nil => exact absurd rfl given
  | @cons text code texts codes first rest inductionHypothesis =>
      obtain ⟨tokens, spells, reads⟩ := first
      have spellsGroup :
          Spells Anything ("[" ++ text ++ "]").toList
            ([.mark .openBracket] ++ tokens ++ [.mark .closeBracket]) := by
        rw [String.toList_append, String.toList_append]
        refine Spells.append ?_ (Lexeme.spells_mark .closeBracket (by decide))
          (fits_cons (by decide) [])
        exact (Lexeme.spells_mark .openBracket (by decide)).append spells
          fun _ _ => trivial
      rw [List.map_cons, String.join_cons, String.toList_append]
      cases texts with
      | nil =>
          cases rest
          rw [List.map_nil, String.join_nil]
          refine ⟨_, spellsGroup.append .nil fun _ _ => trivial, ?_⟩
          intro located items
          rw [List.append_nil] at items
          obtain ⟨inside, closed, rfl, insideItems, closedItems⟩ :=
            List.map_eq_append_iff.mp items
          obtain ⟨opening, inner, rfl, innerItems⟩ :=
            exists_of_map_item_cons insideItems
          obtain ⟨closing, rfl⟩ := exists_of_map_item_singleton closedItems
          obtain ⟨tree, derives, restores⟩ := reads inner innerItems
          exact ⟨[tree], .lastGroup (.lastItem derives), .cons restores .nil⟩
      | cons second others =>
          obtain ⟨moreTokens, spellsMore, readsMore⟩ :=
            inductionHypothesis (by simp)
          refine ⟨_, spellsGroup.append spellsMore fun _ _ => trivial, ?_⟩
          intro located items
          obtain ⟨group, after, rfl, groupItems, afterItems⟩ :=
            List.map_eq_append_iff.mp items
          obtain ⟨inside, closed, rfl, insideItems, closedItems⟩ :=
            List.map_eq_append_iff.mp groupItems
          obtain ⟨opening, inner, rfl, innerItems⟩ :=
            exists_of_map_item_cons insideItems
          obtain ⟨closing, rfl⟩ := exists_of_map_item_singleton closedItems
          obtain ⟨tree, derives, restores⟩ := reads inner innerItems
          obtain ⟨trees, moreDerive, moreRestore⟩ := readsMore after afterItems
          refine ⟨tree :: trees, ?_, .cons restores moreRestore⟩
          have groups : Derives .subscripts
              (⟨opening, .mark .openBracket⟩ :: inner ++
                ⟨closing, .mark .closeBracket⟩ :: after)
              ([tree] ++ trees) :=
            .moreGroups (.lastItem derives) moreDerive
          simpa using groups

/-- The arguments of a call; there may be none. -/
def Arguments (tokens : Tokens) (trees : List Expr) : Prop :=
  (tokens = [] ∧ trees = []) ∨ Derives .list tokens trees

theorem Arguments.derives
    {tokens : Tokens}
    {trees : List Expr}
    (arguments : Arguments tokens trees)
    (name : String)
    (position opening closing : Position) :
    Derives .primary
      (⟨position, .name name⟩ :: ⟨opening, .mark .openParen⟩ :: tokens
        ++ [⟨closing, .mark .closeParen⟩])
      [.call position name trees] := by
  rcases arguments with ⟨rfl, rfl⟩ | derives
  · exact .emptyCall
  · exact .call derives

theorem readsAs_arguments
    {texts : List String}
    {codes : List Code}
    (formulas :
      List.Forall₂
        (fun (text : String) code =>
          FormulaOf signatures params .expression text.toList code)
        texts codes) :
    ReadsAs Arguments (", ".intercalate texts).toList
      (List.Forall₂ (Compile.Restores signatures params) codes) := by
  by_cases given : texts = []
  · subst given
    cases formulas
    refine ⟨[], .nil, ?_⟩
    intro located items
    exact ⟨[], .inl ⟨List.map_eq_nil_iff.mp items, rfl⟩, .nil⟩
  · exact (readsAs_list formulas given).imp fun tokens trees derives restores =>
      ⟨trees, .inr derives, restores⟩

theorem formula_call
    {name : String}
    (isName : Lexeme.IsName name)
    {cell : Cell}
    {texts : List String}
    {codes : List Code}
    (resolved : Compile.callCell signatures params name codes.length = .ok cell)
    (formulas :
      List.Forall₂
        (fun (text : String) code =>
          FormulaOf signatures params .expression text.toList code)
        texts codes)
    (fresh : ∀ code ∈ codes, code.StartsFresh) :
    FormulaOf signatures params .primary
      (name ++ "(" ++ ", ".intercalate texts ++ ")").toList
      (codes.flatten ++ [cell]) := by
  obtain ⟨tokens, spells, reads⟩ := readsAs_arguments formulas
  have spellsAll :
      Spells Delimited (name ++ "(" ++ ", ".intercalate texts ++ ")").toList
        (.name name :: .mark .openParen ::
          (tokens ++ [.mark .closeParen])) := by
    simp only [String.toList_append, List.append_assoc]
    refine (Lexeme.spells_name isName).append ?_ (fits_cons (by decide) _)
    refine (Lexeme.spells_mark .openParen (by decide)).append ?_
      fun _ _ => trivial
    exact spells.append
      ((Lexeme.spells_mark .closeParen (by decide)).weaken fun _ _ => trivial)
      (fits_cons (by decide) _)
  refine ⟨_, spellsAll, ?_⟩
  intro located items
  obtain ⟨position, afterName, rfl, afterNameItems⟩ :=
    exists_of_map_item_cons items
  obtain ⟨opening, afterOpening, rfl, afterOpeningItems⟩ :=
    exists_of_map_item_cons afterNameItems
  obtain ⟨inside, closed, rfl, insideItems, closedItems⟩ :=
    List.map_eq_append_iff.mp afterOpeningItems
  obtain ⟨closing, rfl⟩ := exists_of_map_item_singleton closedItems
  obtain ⟨trees, arguments, restores⟩ := reads inside insideItems
  exact ⟨_, arguments.derives name position opening closing,
    Compile.restores_call resolved restores fresh position⟩

theorem formula_element
    {name : String}
    (isName : Lexeme.IsName name)
    {texts : List String}
    {codes : List Code}
    (resolved :
      Compile.elementCell signatures params name codes.length =
        .ok (.element name codes.length))
    (formulas :
      List.Forall₂
        (fun (text : String) code =>
          FormulaOf signatures params .expression text.toList code)
        texts codes)
    (fresh : ∀ code ∈ codes, code.StartsFresh)
    (given : texts ≠ []) :
    FormulaOf signatures params .primary
      (name ++ String.join (texts.map fun text => "[" ++ text ++ "]")).toList
      (codes.flatten ++ [.element name codes.length]) := by
  obtain ⟨tokens, spells, reads⟩ := readsAs_subscripts formulas given
  have opens :
      ∃ more,
        (String.join (texts.map fun text => "[" ++ text ++ "]")).toList =
          '[' :: more := by
    obtain ⟨text, others, rfl⟩ := List.exists_cons_of_ne_nil given
    rw [List.map_cons, String.join_cons]
    simp only [String.toList_append, List.append_assoc]
    exact ⟨_, rfl⟩
  obtain ⟨more, opened⟩ := opens
  have spellsAll :
      Spells Delimited
        (name ++ String.join (texts.map fun text => "[" ++ text ++ "]")).toList
        ([.name name] ++ tokens) := by
    rw [String.toList_append]
    refine (Lexeme.spells_name isName).append spells ?_
    rw [opened]
    exact fits_cons (by decide) more
  refine ⟨_, spellsAll, ?_⟩
  intro located items
  obtain ⟨position, rest, rfl, restItems⟩ := exists_of_map_item_cons items
  obtain ⟨trees, derives, restores⟩ := reads rest restItems
  exact ⟨_, .element derives,
    Compile.restores_element resolved restores fresh position⟩

end Expressions

end Grammar

end Formulary
