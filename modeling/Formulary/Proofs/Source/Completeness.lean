import Formulary.Proofs.Source.Soundness

namespace Formulary

open Stateful

/-!
# Every phrase is read

A phrase of the grammar is read by the parsing function of its category,
whatever follows, as long as the next token does not extend the phrase.  The
bound on the recursion is eight times the number of tokens, less a little for
the categories that bind tightly.
-/

namespace Grammar

/--
Whether a token extends a phrase of a category that stands in front of it.
-/
def Category.extendedBy (category : Category) : Token → Bool
  | .mark .openParen => true
  | .mark .openBracket => true
  | .mark .comma => category = .list
  | .operator op =>
      match category with
      | .primary | .unary | .subscripts => false
      | .power => Parse.isPower op
      | .term => Parse.isPower op || Parse.isMultiplicative op
      | .sum =>
          Parse.isPower op || Parse.isMultiplicative op || Parse.isAdditive op
      | .expression | .list => true
  | _ => false

/-- Tokens that do not extend a phrase of a category in front of them. -/
def Ends (category : Category) (rest : Tokens) : Prop :=
  ∀ token ∈ rest.head?, category.extendedBy token.item = false

/-- How tightly a category binds, loosest first. -/
def Category.tightness : Category → Nat
  | .list => 0
  | .expression => 1
  | .sum => 2
  | .term => 3
  | .power => 4
  | .unary => 5
  | .primary => 6
  | .subscripts => 6

/-- A token that extends a phrase extends every looser phrase. -/
theorem Category.extendedBy_mono
    {tight loose : Category}
    (looser : loose.tightness ≤ tight.tightness)
    {token : Token}
    (extended : tight.extendedBy token = true) :
    loose.extendedBy token = true := by
  cases token with
  | operator op =>
      cases tight <;> cases loose <;>
        simp only [Category.tightness, Category.extendedBy,
          Bool.or_eq_true] at * <;> grind
  | mark mark =>
      cases mark <;> simp_all [Category.extendedBy]
      subst extended
      cases loose <;> simp_all [Category.tightness]
  | _ => cases extended

theorem Ends.mono
    {tight loose : Category}
    {rest : Tokens}
    (ends : Ends loose rest)
    (looser : loose.tightness ≤ tight.tightness) :
    Ends tight rest := by
  intro token isFirst
  have stops := ends token isFirst
  cases extended : tight.extendedBy token.item with
  | false => rfl
  | true =>
      rw [Category.extendedBy_mono looser extended] at stops
      cases stops

theorem ends_cons
    {category : Category}
    {token : Located Token}
    {rest : Tokens}
    (stops : category.extendedBy token.item = false) :
    Ends category (token :: rest) := by
  intro first isFirst
  cases isFirst
  exact stops

/--
No operator of a class comes next when all of them would extend the phrase.
-/
theorem Ends.operator?
    {category : Category}
    {rest : Tokens}
    (ends : Ends category rest)
    {belongs : BinaryOp → Bool}
    (covered :
      ∀ op, belongs op = true → category.extendedBy (.operator op) = true)
    (last : Option Position) :
    Cursor.operator? ⟨rest, last⟩ belongs = none := by
  cases found : Cursor.operator? ⟨rest, last⟩ belongs with
  | none => rfl
  | some op =>
      obtain ⟨member, position, others, rfl⟩ :=
        Cursor.operator?_eq_some_iff.mp found
      have stops := ends _ rfl
      rw [covered op member] at stops
      cases stops

/-- A mark that would extend the phrase does not come next. -/
theorem Ends.at?
    {category : Category}
    {rest : Tokens}
    (ends : Ends category rest)
    (mark : Mark)
    (covered : category.extendedBy (.mark mark) = true)
    (last : Option Position) :
    Cursor.at? ⟨rest, last⟩ mark = false := by
  cases found : Cursor.at? ⟨rest, last⟩ mark with
  | false => rfl
  | true =>
      obtain ⟨position, others, rfl⟩ := Cursor.at?_eq_true_iff.mp found
      have stops := ends _ rfl
      rw [covered] at stops
      cases stops

/-- The tokens a phrase of a category can start with. -/
def Category.startsWith (category : Category) : Token → Bool
  | .literal _ => category ≠ .subscripts
  | .name _ => category ≠ .subscripts
  | .mark .openParen => category ≠ .subscripts
  | .mark .openBracket => category = .subscripts
  | .operator .sub => category ≠ .subscripts && category ≠ .primary
  | _ => false

/-- What starts a phrase starts every looser phrase. -/
theorem Category.startsWith_mono
    {tight loose : Category}
    (notSubscripts : tight ≠ .subscripts)
    (looser : loose.tightness < 6)
    {token : Token}
    (starts : tight.startsWith token = true) :
    loose.startsWith token = true := by
  have general : loose ≠ .subscripts ∧ loose ≠ .primary := by
    constructor <;> rintro rfl <;> exact absurd looser (by decide)
  unfold Category.startsWith at starts ⊢
  split at starts <;> simp_all

/-- The first token of a phrase. -/
theorem Derives.head
    {category : Category}
    {tokens : Tokens}
    {trees : List Expr}
    (derives : Derives category tokens trees) :
    ∃ first rest,
      tokens = first :: rest ∧ category.startsWith first.item = true := by
  induction derives with
  | literal | parenthesis | name | emptyCall | call | element | negated
  | lastGroup | moreGroups =>
      exact ⟨_, _, rfl, rfl⟩
  | lastItem _ inductionHypothesis | oneSum _ inductionHypothesis
  | oneTerm _ inductionHypothesis
  | onePower _ inductionHypothesis | oneUnary _ inductionHypothesis
  | onePrimary _ inductionHypothesis =>
      obtain ⟨first, rest, rfl, starts⟩ := inductionHypothesis
      exact ⟨first, rest, rfl,
        Category.startsWith_mono (by decide) (by decide) starts⟩
  | moreItems _ _ inductionHypothesis _ | comparison _ _ _ inductionHypothesis _
  | moreTerms _ _ _ inductionHypothesis _
  | morePowers _ _ _ inductionHypothesis _
  | raised _ _ inductionHypothesis _ =>
      obtain ⟨first, rest, rfl, starts⟩ := inductionHypothesis
      exact ⟨first, _, rfl,
        Category.startsWith_mono (by decide) (by decide) starts⟩

/-- What a parsing function gives when it reads a phrase. -/
def Gives
    (result : Except SyntaxError (α × Cursor))
    (a : α)
    (rest : Tokens) :
    Prop :=
  ∃ last, result = .ok (a, ⟨rest, last⟩)

/--
What completeness says of a phrase of each category.  Sums and terms are read up
to any continuation, so that a longer sum or term can go on from there.
-/
def Complete
    (category : Category)
    (tokens : Tokens)
    (trees : List Expr) :
    Prop :=
  ∀ (depth : Nat) (last : Option Position) (rest : Tokens),
    8 * tokens.length ≤ depth + category.tightness →
      match category with
      | .list =>
          Ends .list rest →
            Gives (Parse.expressions depth ⟨tokens ++ rest, last⟩) trees rest
      | .subscripts =>
          Ends .subscripts rest →
            Gives (Parse.subscripts depth ⟨tokens ++ rest, last⟩) trees rest
      | .expression =>
          Ends .expression rest → ∀ tree, trees = [tree] →
            Gives (Parse.expression depth ⟨tokens ++ rest, last⟩) tree rest
      | .sum =>
          Ends .term rest → ∀ tree, trees = [tree] →
            ∃ later between, depth ≤ later + tokens.length ∧
              Parse.sum depth ⟨tokens ++ rest, last⟩ =
                Parse.sumTail later tree ⟨rest, between⟩
      | .term =>
          Ends .power rest → ∀ tree, trees = [tree] →
            ∃ later between, depth ≤ later + tokens.length ∧
              Parse.term depth ⟨tokens ++ rest, last⟩ =
                Parse.termTail later tree ⟨rest, between⟩
      | .power =>
          Ends .power rest → ∀ tree, trees = [tree] →
            Gives (Parse.power depth ⟨tokens ++ rest, last⟩) tree rest
      | .unary =>
          Ends .unary rest → ∀ tree, trees = [tree] →
            Gives (Parse.unary depth ⟨tokens ++ rest, last⟩) tree rest
      | .primary =>
          Ends .primary rest → ∀ tree, trees = [tree] →
            Gives (Parse.primary depth ⟨tokens ++ rest, last⟩) tree rest

/-! One step of the parser for each rule of the grammar. -/

section Steps

variable
  {tokens before after rest : Tokens}
  {tree left right : Expr}

/-- A sum that is not continued is done. -/
theorem sum_done
    (complete : Complete .sum tokens [tree])
    (nonempty : 0 < tokens.length)
    {depth : Nat}
    (enough : 8 * tokens.length ≤ depth + 2)
    (ends : Ends .sum rest)
    (last : Option Position) :
    Gives (Parse.sum depth ⟨tokens ++ rest, last⟩) tree rest := by
  obtain ⟨later, between, bound, reached⟩ :=
    complete depth last rest enough (ends.mono (by decide)) tree rfl
  obtain ⟨fuel, rfl⟩ : ∃ fuel, later = fuel + 1 := ⟨later - 1, by omega⟩
  have stops : Cursor.operator? ⟨rest, between⟩ Parse.isAdditive = none :=
    ends.operator?
      (fun op additive => by simp [Category.extendedBy, additive]) between
  exact ⟨between, by rw [reached, Parse.sumTail, stops]⟩

/-- A term that is not continued is done. -/
theorem term_done
    (complete : Complete .term tokens [tree])
    (nonempty : 0 < tokens.length)
    {depth : Nat}
    (enough : 8 * tokens.length ≤ depth + 3)
    (ends : Ends .term rest)
    (last : Option Position) :
    Gives (Parse.term depth ⟨tokens ++ rest, last⟩) tree rest := by
  obtain ⟨later, between, bound, reached⟩ :=
    complete depth last rest enough (ends.mono (by decide)) tree rfl
  obtain ⟨fuel, rfl⟩ : ∃ fuel, later = fuel + 1 := ⟨later - 1, by omega⟩
  have stops : Cursor.operator? ⟨rest, between⟩ Parse.isMultiplicative = none :=
    ends.operator?
      (fun op member => by simp [Category.extendedBy, member]) between
  exact ⟨between, by rw [reached, Parse.termTail, stops]⟩

/-- An operator comes next. -/
theorem operator?_cons
    {op : BinaryOp}
    {belongs : BinaryOp → Bool}
    (member : belongs op = true)
    (position : Position)
    (rest : Tokens)
    (last : Option Position) :
    Cursor.operator? ⟨⟨position, .operator op⟩ :: rest, last⟩ belongs =
      some op :=
  Cursor.operator?_eq_some_iff.mpr ⟨member, position, rest, rfl⟩

theorem complete_oneSum
    (complete : Complete .sum tokens [tree])
    (nonempty : 0 < tokens.length) :
    Complete .expression tokens [tree] := by
  rintro depth last rest enough ends _ ⟨⟩
  simp only [Category.tightness] at enough
  obtain ⟨fuel, rfl⟩ : ∃ fuel, depth = fuel + 1 := ⟨depth - 1, by omega⟩
  have enoughForSum : 8 * tokens.length ≤ fuel + 2 := by omega
  obtain ⟨between, reads⟩ :=
    sum_done complete nonempty enoughForSum (ends.mono (by decide)) last
  have stops : Cursor.operator? ⟨rest, between⟩ BinaryOp.isComparison = none :=
    ends.operator? (fun _ _ => rfl) between
  refine ⟨between, ?_⟩
  rw [Parse.expression, reads, except_bind_ok]
  simp only [stops]
  rfl

theorem complete_comparison
    {op : BinaryOp}
    {position : Position}
    (compares : op.isComparison = true)
    (completeLeft : Complete .sum before [left])
    (leftNonempty : 0 < before.length)
    (completeRight : Complete .sum after [right])
    (rightNonempty : 0 < after.length) :
    Complete .expression (before ++ ⟨position, .operator op⟩ :: after)
      [.combine op left right] := by
  rintro depth last rest enough ends _ ⟨⟩
  simp only [Category.tightness, List.length_append, List.length_cons] at enough
  obtain ⟨fuel, rfl⟩ : ∃ fuel, depth = fuel + 1 := ⟨depth - 1, by omega⟩
  have enoughForLeft : 8 * before.length ≤ fuel + 2 := by omega
  have enoughForRight : 8 * after.length ≤ fuel + 2 := by omega
  have stopsLeft : Ends .sum (⟨position, .operator op⟩ :: (after ++ rest)) := by
    refine ends_cons ?_
    cases op <;> first
      | rfl
      | cases compares
  obtain ⟨afterLeft, readsLeft⟩ :=
    sum_done completeLeft leftNonempty enoughForLeft stopsLeft last
  obtain ⟨afterRight, readsRight⟩ :=
    sum_done completeRight rightNonempty enoughForRight (ends.mono (by decide))
      (some position)
  have stops :
      Cursor.operator? ⟨rest, afterRight⟩ BinaryOp.isComparison = none :=
    ends.operator? (fun _ _ => rfl) afterRight
  refine ⟨afterRight, ?_⟩
  rw [List.append_assoc, List.cons_append, Parse.expression, readsLeft,
    except_bind_ok]
  simp only [operator?_cons compares, Cursor.advance, readsRight,
    except_bind_ok, stops]
  rfl

theorem complete_oneTerm
    (complete : Complete .term tokens [tree])
    (nonempty : 0 < tokens.length) :
    Complete .sum tokens [tree] := by
  rintro depth last rest enough ends _ ⟨⟩
  simp only [Category.tightness] at enough
  obtain ⟨fuel, rfl⟩ : ∃ fuel, depth = fuel + 1 := ⟨depth - 1, by omega⟩
  have enoughForTerm : 8 * tokens.length ≤ fuel + 3 := by omega
  obtain ⟨between, reads⟩ := term_done complete nonempty enoughForTerm ends last
  refine ⟨fuel, between, by omega, ?_⟩
  rw [Parse.sum, reads, except_bind_ok]

theorem complete_moreTerms
    {op : BinaryOp}
    {position : Position}
    (additive : Parse.isAdditive op = true)
    (completeLeft : Complete .sum before [left])
    (completeRight : Complete .term after [right])
    (rightNonempty : 0 < after.length) :
    Complete .sum (before ++ ⟨position, .operator op⟩ :: after)
      [.combine op left right] := by
  rintro depth last rest enough ends _ ⟨⟩
  simp only [Category.tightness, List.length_append,
    List.length_cons] at enough ⊢
  have stopsLeft :
      Ends .term (⟨position, .operator op⟩ :: (after ++ rest)) := by
    refine ends_cons ?_
    cases op <;> first
      | rfl
      | cases additive
  have enoughForLeft : 8 * before.length ≤ depth + 2 := by omega
  obtain ⟨later, between, bound, reached⟩ :=
    completeLeft depth last _ enoughForLeft stopsLeft left rfl
  obtain ⟨fuel, rfl⟩ : ∃ fuel, later = fuel + 1 := ⟨later - 1, by omega⟩
  have enoughForRight : 8 * after.length ≤ fuel + 3 := by omega
  obtain ⟨afterRight, readsRight⟩ :=
    term_done completeRight rightNonempty enoughForRight ends (some position)
  refine ⟨fuel, afterRight, by omega, ?_⟩
  rw [List.append_assoc, List.cons_append, reached, Parse.sumTail]
  simp only [operator?_cons additive, Cursor.advance, readsRight,
    except_bind_ok]

theorem complete_onePower
    (complete : Complete .power tokens [tree])
    (nonempty : 0 < tokens.length) :
    Complete .term tokens [tree] := by
  rintro depth last rest enough ends _ ⟨⟩
  simp only [Category.tightness] at enough
  obtain ⟨fuel, rfl⟩ : ∃ fuel, depth = fuel + 1 := ⟨depth - 1, by omega⟩
  have enoughForPower : 8 * tokens.length ≤ fuel + 4 := by omega
  obtain ⟨between, reads⟩ :=
    complete fuel last rest enoughForPower ends tree rfl
  refine ⟨fuel, between, by omega, ?_⟩
  rw [Parse.term, reads, except_bind_ok]

theorem complete_morePowers
    {op : BinaryOp}
    {position : Position}
    (multiplicative : Parse.isMultiplicative op = true)
    (completeLeft : Complete .term before [left])
    (completeRight : Complete .power after [right])
    (rightNonempty : 0 < after.length) :
    Complete .term (before ++ ⟨position, .operator op⟩ :: after)
      [.combine op left right] := by
  rintro depth last rest enough ends _ ⟨⟩
  simp only [Category.tightness, List.length_append,
    List.length_cons] at enough ⊢
  have stopsLeft :
      Ends .power (⟨position, .operator op⟩ :: (after ++ rest)) := by
    refine ends_cons ?_
    cases op <;> first
      | rfl
      | cases multiplicative
  have enoughForLeft : 8 * before.length ≤ depth + 3 := by omega
  obtain ⟨later, between, bound, reached⟩ :=
    completeLeft depth last _ enoughForLeft stopsLeft left rfl
  obtain ⟨fuel, rfl⟩ : ∃ fuel, later = fuel + 1 := ⟨later - 1, by omega⟩
  have enoughForRight : 8 * after.length ≤ fuel + 4 := by omega
  obtain ⟨afterRight, readsRight⟩ :=
    completeRight fuel (some position) rest enoughForRight ends right rfl
  refine ⟨fuel, afterRight, by omega, ?_⟩
  rw [List.append_assoc, List.cons_append, reached, Parse.termTail]
  simp only [operator?_cons multiplicative, Cursor.advance, readsRight,
    except_bind_ok]

theorem complete_oneUnary
    (complete : Complete .unary tokens [tree])
    (nonempty : 0 < tokens.length) :
    Complete .power tokens [tree] := by
  rintro depth last rest enough ends _ ⟨⟩
  simp only [Category.tightness] at enough
  obtain ⟨fuel, rfl⟩ : ∃ fuel, depth = fuel + 1 := ⟨depth - 1, by omega⟩
  have enoughForUnary : 8 * tokens.length ≤ fuel + 5 := by omega
  obtain ⟨between, reads⟩ :=
    complete fuel last rest enoughForUnary (ends.mono (by decide)) tree rfl
  have stops : Cursor.operator? ⟨rest, between⟩ Parse.isPower = none :=
    ends.operator? (fun op isPower => isPower) between
  refine ⟨between, ?_⟩
  rw [Parse.power, reads, except_bind_ok]
  simp only [stops]
  rfl

theorem complete_raised
    {position : Position}
    (completeBase : Complete .unary before [left])
    (completeExponent : Complete .power after [right]) :
    Complete .power (before ++ ⟨position, .operator .pow⟩ :: after)
      [.combine .pow left right] := by
  rintro depth last rest enough ends _ ⟨⟩
  simp only [Category.tightness, List.length_append, List.length_cons] at enough
  obtain ⟨fuel, rfl⟩ : ∃ fuel, depth = fuel + 1 := ⟨depth - 1, by omega⟩
  have enoughForBase : 8 * before.length ≤ fuel + 5 := by omega
  have enoughForExponent : 8 * after.length ≤ fuel + 4 := by omega
  have stopsBase : Ends .unary
      (⟨position, .operator .pow⟩ :: (after ++ rest)) := ends_cons rfl
  obtain ⟨afterBase, readsBase⟩ :=
    completeBase fuel last _ enoughForBase stopsBase left rfl
  obtain ⟨afterExponent, readsExponent⟩ :=
    completeExponent fuel (some position) rest enoughForExponent ends right rfl
  have isPower : Parse.isPower .pow = true := rfl
  refine ⟨afterExponent, ?_⟩
  rw [List.append_assoc, List.cons_append, Parse.power, readsBase,
    except_bind_ok]
  simp only [operator?_cons isPower, Cursor.advance, readsExponent,
    except_bind_ok]
  rfl

theorem complete_onePrimary
    (complete : Complete .primary tokens [tree])
    (derives : Derives .primary tokens [tree]) :
    Complete .unary tokens [tree] := by
  rintro depth last rest enough ends _ ⟨⟩
  simp only [Category.tightness] at enough
  obtain ⟨first, others, rfl, starts⟩ := derives.head
  simp only [List.length_cons] at enough
  obtain ⟨fuel, rfl⟩ : ∃ fuel, depth = fuel + 1 := ⟨depth - 1, by omega⟩
  have enoughForPrimary : 8 * (first :: others).length ≤ fuel + 6 := by
    simp only [List.length_cons]
    omega
  have noMinus : ¬ Cursor.peek? ⟨first :: others ++ rest, last⟩ =
      some (.operator .sub) := by
    intro isMinus
    have same : first.item = .operator .sub := by
      simpa [Cursor.peek?] using isMinus
    rw [same] at starts
    cases starts
  obtain ⟨between, reads⟩ :=
    complete fuel last rest enoughForPrimary (ends.mono (by decide)) tree rfl
  refine ⟨between, ?_⟩
  rw [Parse.unary, if_neg noMinus, reads]

theorem complete_negated
    {position : Position}
    (complete : Complete .unary tokens [tree]) :
    Complete .unary (⟨position, .operator .sub⟩ :: tokens)
      [.negate position tree] := by
  rintro depth last rest enough ends _ ⟨⟩
  simp only [Category.tightness, List.length_cons] at enough
  obtain ⟨fuel, rfl⟩ : ∃ fuel, depth = fuel + 1 := ⟨depth - 1, by omega⟩
  have enoughForOperand : 8 * tokens.length ≤ fuel + 5 := by omega
  obtain ⟨between, reads⟩ :=
    complete fuel (some position) rest enoughForOperand ends tree rfl
  refine ⟨between, ?_⟩
  have isMinus :
      Cursor.peek? ⟨⟨position, .operator .sub⟩ :: tokens ++ rest, last⟩ =
        some (.operator .sub) :=
    rfl
  rw [Parse.unary, if_pos isMinus]
  simp only [Cursor.advance, List.cons_append, reads, except_bind_ok]
  rfl

theorem complete_literal
    {value : Value}
    {position : Position} :
    Complete .primary [⟨position, .literal value⟩]
      [.literal position value] := by
  rintro depth last rest enough ends _ ⟨⟩
  simp only [Category.tightness, List.length_singleton] at enough
  obtain ⟨fuel, rfl⟩ : ∃ fuel, depth = fuel + 1 := ⟨depth - 1, by omega⟩
  refine ⟨some position, ?_⟩
  rw [Parse.primary]
  rfl

/-- A mark that comes next is stepped over. -/
theorem expect_cons
    (mark : Mark)
    (expected : Expected)
    (position : Position)
    (rest : Tokens)
    (last : Option Position) :
    Cursor.expect ⟨⟨position, .mark mark⟩ :: rest, last⟩ mark expected =
      .ok ⟨rest, some position⟩ := by
  simp [Cursor.expect, Cursor.at?, Cursor.peek?, Cursor.advance]

theorem complete_parenthesis
    {opening closing : Position}
    (complete : Complete .expression tokens [tree]) :
    Complete .primary
      (⟨opening, .mark .openParen⟩ :: tokens ++ [⟨closing, .mark .closeParen⟩])
      [tree] := by
  rintro depth last rest enough ends _ ⟨⟩
  simp only [Category.tightness, List.length_append, List.length_cons,
    List.length_nil] at enough
  obtain ⟨fuel, rfl⟩ : ∃ fuel, depth = fuel + 1 := ⟨depth - 1, by omega⟩
  have enoughInside : 8 * tokens.length ≤ fuel + 1 := by omega
  have stops : Ends .expression (⟨closing, .mark .closeParen⟩ :: rest) :=
    ends_cons rfl
  obtain ⟨between, reads⟩ :=
    complete fuel (some opening) _ enoughInside stops tree rfl
  refine ⟨some closing, ?_⟩
  rw [List.append_assoc, List.cons_append, List.singleton_append, Parse.primary]
  simp only [Cursor.peek?, List.head?_cons, Option.map_some, Cursor.advance,
    reads, except_bind_ok, expect_cons]
  rfl

theorem complete_name
    {spelling : String}
    {position : Position} :
    Complete .primary [⟨position, .name spelling⟩]
      [.name position spelling] := by
  rintro depth last rest enough ends _ ⟨⟩
  simp only [Category.tightness, List.length_singleton] at enough
  obtain ⟨fuel, rfl⟩ : ∃ fuel, depth = fuel + 1 := ⟨depth - 1, by omega⟩
  refine ⟨some position, ?_⟩
  have noParen :
      Cursor.peek? ⟨rest, some position⟩ ≠ some (.mark .openParen) := by
    simpa [Cursor.at?] using ends.at? .openParen rfl (some position)
  have noBracket :
      Cursor.peek? ⟨rest, some position⟩ ≠ some (.mark .openBracket) := by
    simpa [Cursor.at?] using ends.at? .openBracket rfl (some position)
  have isName : Cursor.peek? ⟨[⟨position, .name spelling⟩] ++ rest, last⟩ =
      some (.name spelling) :=
    rfl
  rw [Parse.primary, isName]
  simp only [Cursor.advance, List.singleton_append]
  rfl

theorem complete_emptyCall
    {spelling : String}
    {position opening closing : Position} :
    Complete .primary
      [⟨position, .name spelling⟩, ⟨opening, .mark .openParen⟩,
        ⟨closing, .mark .closeParen⟩]
      [.call position spelling []] := by
  rintro depth last rest enough ends _ ⟨⟩
  simp only [Category.tightness, List.length_cons, List.length_nil] at enough
  obtain ⟨fuel, rfl⟩ : ∃ fuel, depth = fuel + 2 := ⟨depth - 2, by omega⟩
  refine ⟨some closing, ?_⟩
  rw [Parse.primary]
  simp only [List.cons_append, List.nil_append, Cursor.peek?, List.head?_cons,
    Option.map_some, Cursor.advance, Parse.arguments, Cursor.at?]
  rfl

theorem complete_call
    {spelling : String}
    {items : List Expr}
    {position opening closing : Position}
    (complete : Complete .list tokens items)
    (derives : Derives .list tokens items) :
    Complete .primary
      (⟨position, .name spelling⟩ :: ⟨opening, .mark .openParen⟩ :: tokens
        ++ [⟨closing, .mark .closeParen⟩])
      [.call position spelling items] := by
  rintro depth last rest enough ends _ ⟨⟩
  simp only [Category.tightness, List.length_append, List.length_cons,
    List.length_nil] at enough
  obtain ⟨fuel, rfl⟩ : ∃ fuel, depth = fuel + 2 := ⟨depth - 2, by omega⟩
  have enoughInside : 8 * tokens.length ≤ fuel + 0 := by omega
  have stops : Ends .list (⟨closing, .mark .closeParen⟩ :: rest) :=
    ends_cons rfl
  obtain ⟨between, reads⟩ := complete fuel (some opening) _ enoughInside stops
  have notClosed :
      Cursor.at? ⟨tokens ++ ⟨closing, .mark .closeParen⟩ :: rest, some opening⟩
        .closeParen =
        false := by
    obtain ⟨first, others, rfl, starts⟩ := derives.head
    cases closed :
        Cursor.at? ⟨first :: others ++ ⟨closing, .mark .closeParen⟩ :: rest,
          some opening⟩ .closeParen with
    | false => rfl
    | true =>
        obtain ⟨place, more, shape⟩ := Cursor.at?_eq_true_iff.mp closed
        cases shape
        cases starts
  refine ⟨some closing, ?_⟩
  rw [List.append_assoc, List.cons_append, List.cons_append,
    List.singleton_append, Parse.primary]
  simp only [Cursor.peek?, List.head?_cons, Option.map_some, Cursor.advance,
    Parse.arguments, notClosed, Bool.false_eq_true, if_false, reads,
    except_bind_ok, expect_cons]
  rfl

theorem complete_element
    {spelling : String}
    {indices : List Expr}
    {position : Position}
    (complete : Complete .subscripts tokens indices)
    (derives : Derives .subscripts tokens indices) :
    Complete .primary (⟨position, .name spelling⟩ :: tokens)
      [.element position spelling indices] := by
  rintro depth last rest enough ends _ ⟨⟩
  simp only [Category.tightness, List.length_cons] at enough
  obtain ⟨fuel, rfl⟩ : ∃ fuel, depth = fuel + 1 := ⟨depth - 1, by omega⟩
  have enoughInside : 8 * tokens.length ≤ fuel + 6 := by omega
  obtain ⟨between, reads⟩ :=
    complete fuel (some position) rest enoughInside ends
  have opened :
      Cursor.peek? ⟨tokens ++ rest, some position⟩ =
        some (.mark .openBracket) := by
    obtain ⟨⟨place, item⟩, others, rfl, starts⟩ := derives.head
    unfold Category.startsWith at starts
    split at starts <;> simp_all [Cursor.peek?]
  have isName :
      Cursor.peek? ⟨⟨position, .name spelling⟩ :: tokens ++ rest, last⟩ =
        some (.name spelling) :=
    rfl
  refine ⟨between, ?_⟩
  rw [Parse.primary, isName]
  simp only [Cursor.advance, List.cons_append, opened, reads, except_bind_ok]
  rfl

/-- A group of subscripts, and what the groups after it give. -/
theorem subscripts_cons
    {group groups : List Expr}
    (opening closing : Position)
    (complete : Complete .list tokens group)
    {fuel : Nat}
    (enough : 8 * tokens.length ≤ fuel)
    {others : Tokens}
    (readsOthers :
      ∀ last, Gives (Parse.subscripts fuel ⟨others ++ rest, last⟩) groups rest)
    (last : Option Position) :
    Gives
      (Parse.subscripts (fuel + 1)
        ⟨⟨opening, .mark .openBracket⟩ :: tokens ++
            ⟨closing, .mark .closeBracket⟩ :: others ++ rest,
          last⟩)
      (group ++ groups) rest := by
  have stops : Ends .list
      (⟨closing, .mark .closeBracket⟩ :: (others ++ rest)) := ends_cons rfl
  obtain ⟨between, reads⟩ := complete fuel (some opening) _ enough stops
  obtain ⟨final, readsRest⟩ := readsOthers (some closing)
  refine ⟨final, ?_⟩
  rw [List.append_assoc, List.cons_append, List.cons_append, Parse.subscripts]
  simp only [Cursor.at?, Cursor.peek?, List.head?_cons, Option.map_some,
    decide_true, if_true, Cursor.advance, reads, except_bind_ok, expect_cons,
    readsRest]
  rfl

theorem complete_lastGroup
    {group : List Expr}
    {opening closing : Position}
    (complete : Complete .list tokens group) :
    Complete .subscripts
      (⟨opening, .mark .openBracket⟩ :: tokens ++
        [⟨closing, .mark .closeBracket⟩]) group := by
  rintro depth last rest enough ends
  simp only [Category.tightness, List.length_append, List.length_cons,
    List.length_nil] at enough
  obtain ⟨fuel, rfl⟩ : ∃ fuel, depth = fuel + 2 := ⟨depth - 2, by omega⟩
  have enoughInside : 8 * tokens.length ≤ fuel + 1 := by omega
  have readsNothing (last : Option Position) :
      Gives (Parse.subscripts (fuel + 1) ⟨[] ++ rest, last⟩) [] rest := by
    have closed := ends.at? .openBracket rfl last
    refine ⟨last, ?_⟩
    rw [List.nil_append, Parse.subscripts]
    simp only [closed, Bool.false_eq_true, if_false]
  have reads :=
    subscripts_cons opening closing complete enoughInside readsNothing last
  rwa [List.append_nil] at reads

theorem complete_moreGroups
    {group groups : List Expr}
    {opening closing : Position}
    (complete : Complete .list tokens group)
    (completeOthers : Complete .subscripts after groups) :
    Complete .subscripts
      (⟨opening, .mark .openBracket⟩ :: tokens ++
        ⟨closing, .mark .closeBracket⟩ :: after)
      (group ++ groups) := by
  rintro depth last rest enough ends
  simp only [Category.tightness, List.length_append, List.length_cons] at enough
  obtain ⟨fuel, rfl⟩ : ∃ fuel, depth = fuel + 1 := ⟨depth - 1, by omega⟩
  have enoughInside : 8 * tokens.length ≤ fuel := by omega
  have enoughAfter : 8 * after.length ≤ fuel + 6 := by omega
  exact subscripts_cons opening closing complete enoughInside
    (fun last => completeOthers fuel last rest enoughAfter ends) last

theorem complete_lastItem
    (complete : Complete .expression tokens [tree])
    (nonempty : 0 < tokens.length) :
    Complete .list tokens [tree] := by
  rintro depth last rest enough ends
  simp only [Category.tightness] at enough
  obtain ⟨fuel, rfl⟩ : ∃ fuel, depth = fuel + 1 := ⟨depth - 1, by omega⟩
  have enoughForItem : 8 * tokens.length ≤ fuel + 1 := by omega
  obtain ⟨between, reads⟩ :=
    complete fuel last rest enoughForItem (ends.mono (by decide)) tree rfl
  have stops := ends.at? .comma rfl between
  refine ⟨between, ?_⟩
  rw [Parse.expressions, reads, except_bind_ok]
  simp only [stops, Bool.false_eq_true, if_false]
  rfl

theorem complete_moreItems
    {items : List Expr}
    {position : Position}
    (complete : Complete .expression tokens [tree])
    (completeOthers : Complete .list after items) :
    Complete .list (tokens ++ ⟨position, .mark .comma⟩ :: after)
      (tree :: items) := by
  rintro depth last rest enough ends
  simp only [Category.tightness, List.length_append, List.length_cons] at enough
  obtain ⟨fuel, rfl⟩ : ∃ fuel, depth = fuel + 1 := ⟨depth - 1, by omega⟩
  have enoughForItem : 8 * tokens.length ≤ fuel + 1 := by omega
  have enoughForOthers : 8 * after.length ≤ fuel + 0 := by omega
  have stops : Ends .expression (⟨position, .mark .comma⟩ :: (after ++ rest)) :=
    ends_cons rfl
  obtain ⟨between, reads⟩ := complete fuel last _ enoughForItem stops tree rfl
  obtain ⟨final, readsOthers⟩ :=
    completeOthers fuel (some position) rest enoughForOthers ends
  refine ⟨final, ?_⟩
  rw [List.append_assoc, List.cons_append, Parse.expressions, reads,
    except_bind_ok]
  simp only [Cursor.at?, Cursor.peek?, List.head?_cons, Option.map_some,
    decide_true, if_true, Cursor.advance, readsOthers, except_bind_ok]
  rfl

end Steps

/-- Every phrase is read by the parsing function of its category. -/
theorem Derives.complete
    {category : Category}
    {tokens : Tokens}
    {trees : List Expr}
    (derives : Derives category tokens trees) :
    Complete category tokens trees := by
  induction derives with
  | lastItem derives inductionHypothesis =>
      exact complete_lastItem inductionHypothesis derives.length_pos
  | moreItems _ _ completeItem completeOthers =>
      exact complete_moreItems completeItem completeOthers
  | oneSum derives inductionHypothesis =>
      exact complete_oneSum inductionHypothesis derives.length_pos
  | comparison compares leftDerives rightDerives completeLeft completeRight =>
      exact complete_comparison compares completeLeft
        leftDerives.length_pos completeRight rightDerives.length_pos
  | oneTerm derives inductionHypothesis =>
      exact complete_oneTerm inductionHypothesis derives.length_pos
  | moreTerms additive _ rightDerives completeLeft completeRight =>
      exact complete_moreTerms additive completeLeft completeRight
        rightDerives.length_pos
  | onePower derives inductionHypothesis =>
      exact complete_onePower inductionHypothesis derives.length_pos
  | morePowers multiplicative _ rightDerives completeLeft completeRight =>
      exact complete_morePowers multiplicative completeLeft completeRight
        rightDerives.length_pos
  | oneUnary derives inductionHypothesis =>
      exact complete_oneUnary inductionHypothesis derives.length_pos
  | raised _ _ completeBase completeExponent =>
      exact complete_raised completeBase completeExponent
  | onePrimary derives inductionHypothesis =>
      exact complete_onePrimary inductionHypothesis derives
  | negated _ inductionHypothesis =>
      exact complete_negated inductionHypothesis
  | literal => exact complete_literal
  | parenthesis _ inductionHypothesis =>
      exact complete_parenthesis inductionHypothesis
  | name => exact complete_name
  | emptyCall => exact complete_emptyCall
  | call derives inductionHypothesis =>
      exact complete_call inductionHypothesis derives
  | element derives inductionHypothesis =>
      exact complete_element inductionHypothesis derives
  | lastGroup _ inductionHypothesis =>
      exact complete_lastGroup inductionHypothesis
  | moreGroups _ _ completeGroup completeOthers =>
      exact complete_moreGroups completeGroup completeOthers

end Grammar

end Formulary
