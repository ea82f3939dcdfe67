import Formulary.Proofs.Source.Completeness

namespace Formulary

open Stateful

/-!
# Every declaration is read

Scalars, functions, tables and arrays with sizes in brackets, as the grammar
gives them, are read as statements, and so are programs made of them.
-/

namespace Grammar

section Lists

variable {rest : Tokens}

/-- Parameters up to a closing parenthesis. -/
theorem Params.complete
    {tokens : Tokens}
    {names : List String}
    (derives : Params tokens names)
    {depth : Nat}
    (enough : tokens.length ≤ depth)
    (ends : Ends .list rest)
    (last : Option Position) :
    Gives (Parse.params depth ⟨tokens ++ rest, last⟩) names rest := by
  induction derives generalizing depth last with
  | @last name position =>
      obtain ⟨fuel, rfl⟩ : ∃ fuel, depth = fuel + 1 :=
        ⟨depth - 1, by simp at enough; omega⟩
      have stops := ends.at? .comma rfl (some position)
      refine ⟨some position, ?_⟩
      simp only [Parse.params, List.singleton_append, Cursor.expectName,
        Cursor.peek?, List.head?_cons, Option.map_some, except_bind_ok,
        Cursor.advance, stops, Bool.false_eq_true, if_false]
      rfl
  | @more name names tokens position comma others inductionHypothesis =>
      simp only [List.length_cons] at enough
      obtain ⟨fuel, rfl⟩ : ∃ fuel, depth = fuel + 1 := ⟨depth - 1, by omega⟩
      obtain ⟨final, reads⟩ :=
        inductionHypothesis (by omega : tokens.length ≤ fuel) (some comma)
      refine ⟨final, ?_⟩
      simp only [Parse.params, List.cons_append, Cursor.expectName,
        Cursor.peek?, List.head?_cons, Option.map_some, except_bind_ok,
        Cursor.advance, Cursor.at?, decide_true, if_true, reads]
      rfl

/-- An expression in front of a token that does not extend it. -/
theorem Derives.gives
    {tokens : Tokens}
    {tree : Expr}
    (derives : Derives .expression tokens [tree])
    {depth : Nat}
    (enough : 8 * tokens.length ≤ depth + 1)
    (ends : Ends .expression rest)
    (last : Option Position) :
    Gives (Parse.expression depth ⟨tokens ++ rest, last⟩) tree rest :=
  derives.complete depth last rest enough ends tree rfl

/-- Initializers start with an expression. -/
theorem Elements.head
    {close : Mark}
    {tokens : Tokens}
    {items : List Expr}
    (derives : Elements close tokens items) :
    ∃ first others, tokens = first :: others ∧
      Category.expression.startsWith first.item = true := by
  cases derives with
  | last itemDerives | lastComma itemDerives | more itemDerives _ =>
      obtain ⟨first, others, rfl, starts⟩ := itemDerives.head
      exact ⟨first, _, rfl, starts⟩

/-- What starts an expression is not a mark that closes a list. -/
theorem not_at?_of_startsWith
    {first : Located Token}
    (starts : Category.expression.startsWith first.item = true)
    {mark : Mark}
    (closes : mark = .closeBracket ∨ mark = .closeBrace)
    (others : Tokens)
    (last : Option Position) :
    Cursor.at? ⟨first :: others, last⟩ mark = false := by
  cases found : Cursor.at? ⟨first :: others, last⟩ mark with
  | false => rfl
  | true =>
      obtain ⟨position, more, shape⟩ := Cursor.at?_eq_true_iff.mp found
      cases shape
      rcases closes with rfl | rfl <;> cases starts

/-- Initializers up to their closing mark. -/
theorem Elements.complete
    {close : Mark}
    (closes : close = .closeBracket ∨ close = .closeBrace)
    {tokens : Tokens}
    {items : List Expr}
    (derives : Elements close tokens items)
    {depth : Nat}
    (enough : 8 * tokens.length ≤ depth)
    (last : Option Position) :
    Gives (Parse.elements close depth ⟨tokens ++ rest, last⟩) items rest := by
  have endsHere (position : Position) (others : Tokens) :
      Ends .expression (⟨position, .mark close⟩ :: others) := by
    rcases closes with rfl | rfl <;> exact ends_cons rfl
  have notComma : close ≠ .comma := by
    rcases closes with rfl | rfl <;> decide
  induction derives generalizing depth last with
  | @last tokens item closing itemDerives =>
      simp only [List.length_append, List.length_singleton] at enough
      obtain ⟨fuel, rfl⟩ : ∃ fuel, depth = fuel + 1 := ⟨depth - 1, by omega⟩
      obtain ⟨between, reads⟩ :=
        itemDerives.gives (by omega : 8 * tokens.length ≤ fuel + 1)
          (endsHere closing rest) last
      refine ⟨some closing, ?_⟩
      rw [List.append_assoc, List.singleton_append, Parse.elements, reads,
        except_bind_ok]
      have stops : Cursor.at? ⟨⟨closing, .mark close⟩ :: rest, between⟩ .comma =
          false := by
        simp [Cursor.at?, Cursor.peek?, notComma]
      simp only [stops, Bool.false_eq_true, if_false, expect_cons,
        except_bind_ok]
      rfl
  | @lastComma tokens item comma closing itemDerives =>
      simp only [List.length_append, List.length_cons,
        List.length_nil] at enough
      obtain ⟨fuel, rfl⟩ : ∃ fuel, depth = fuel + 1 := ⟨depth - 1, by omega⟩
      obtain ⟨between, reads⟩ :=
        itemDerives.gives (by omega : 8 * tokens.length ≤ fuel + 1)
          (ends_cons rfl : Ends .expression
            (⟨comma, .mark .comma⟩ :: ⟨closing, .mark close⟩ :: rest)) last
      refine ⟨some closing, ?_⟩
      rw [List.append_assoc, List.cons_append, List.singleton_append,
        Parse.elements, reads, except_bind_ok]
      simp only [Cursor.at?, Cursor.peek?, List.head?_cons, Option.map_some,
        decide_true, if_true, Cursor.advance]
      rfl
  | @more tokens others item items comma itemDerives othersDerive
        inductionHypothesis =>
      simp only [List.length_append, List.length_cons] at enough
      obtain ⟨fuel, rfl⟩ : ∃ fuel, depth = fuel + 1 := ⟨depth - 1, by omega⟩
      obtain ⟨between, reads⟩ :=
        itemDerives.gives (by omega : 8 * tokens.length ≤ fuel + 1)
          (ends_cons rfl :
            Ends .expression (⟨comma, .mark .comma⟩ :: (others ++ rest))) last
      obtain ⟨final, readsOthers⟩ :=
        inductionHypothesis (by omega : 8 * others.length ≤ fuel) (some comma)
      obtain ⟨first, more, shape, starts⟩ := othersDerive.head
      have notClosed :
          Cursor.at? ⟨others ++ rest, some comma⟩ close = false := by
        rw [shape]
        exact not_at?_of_startsWith starts closes _ _
      refine ⟨final, ?_⟩
      rw [List.append_assoc, List.cons_append, Parse.elements, reads,
        except_bind_ok]
      have atComma :
          Cursor.at? ⟨⟨comma, .mark .comma⟩ :: (others ++ rest), between⟩
            .comma = true := by
        simp [Cursor.at?, Cursor.peek?]
      simp only [atComma, if_true, Cursor.advance, notClosed,
        Bool.false_eq_true, if_false, readsOthers, except_bind_ok]
      rfl

/-- Initializers up to their closing mark, after the opening one. -/
theorem Elements.initializer
    {close : Mark}
    (closes : close = .closeBracket ∨ close = .closeBrace)
    {tokens : Tokens}
    {items : List Expr}
    (derives : Elements close tokens items)
    {depth : Nat}
    (enough : 8 * tokens.length ≤ depth)
    (rest : Tokens)
    (last : Option Position) :
    Gives (Parse.initializer close depth ⟨tokens ++ rest, last⟩)
      items rest := by
  obtain ⟨final, reads⟩ :
      Gives (Parse.elements close depth ⟨tokens ++ rest, last⟩) items rest :=
    derives.complete closes enough last
  obtain ⟨first, others, rfl, starts⟩ := derives.head
  have notClosed : Cursor.at? ⟨first :: others ++ rest, last⟩ close = false :=
    not_at?_of_startsWith starts closes _ _
  refine ⟨final, ?_⟩
  simp only [Parse.initializer, notClosed, Bool.false_eq_true, if_false, reads]

/-- The two coordinates of a point, and what comes after it. -/
theorem OnePoint.reads
    {tokens : Tokens}
    {pair : Expr × Expr}
    (derives : OnePoint tokens pair)
    {depth : Nat}
    (enough : 8 * tokens.length ≤ depth)
    (rest : Tokens)
    (last : Option Position) :
    ∃ afterOpening afterX afterComma afterY closing,
      Cursor.expect ⟨tokens ++ rest, last⟩ .openParen .openPoint =
        .ok afterOpening ∧
      Parse.expression depth afterOpening = .ok (pair.1, afterX) ∧
      Cursor.expect afterX .comma .commaInPoint = .ok afterComma ∧
      Parse.expression depth afterComma = .ok (pair.2, afterY) ∧
      Cursor.expect afterY .closeParen .closePoint = .ok ⟨rest, closing⟩ := by
  cases derives with
  | @point before after x y opening comma closing xDerives yDerives =>
      simp only [List.length_append, List.length_cons,
        List.length_nil] at enough
      obtain ⟨lastX, readsX⟩ :=
        xDerives.gives (by omega : 8 * before.length ≤ depth + 1)
          (ends_cons rfl : Ends .expression
            (⟨comma, .mark .comma⟩ ::
              (after ++ ⟨closing, .mark .closeParen⟩ :: rest)))
          (some opening)
      obtain ⟨lastY, readsY⟩ :=
        yDerives.gives (by omega : 8 * after.length ≤ depth + 1)
          (ends_cons rfl : Ends .expression
            (⟨closing, .mark .closeParen⟩ :: rest)) (some comma)
      refine ⟨_, _, _, _, some closing, ?_, readsX, expect_cons _ _ _ _ _,
        readsY, expect_cons _ _ _ _ _⟩
      rw [List.append_assoc, List.append_assoc, List.cons_append,
        List.cons_append, List.singleton_append, expect_cons]

/-- Points start with a parenthesis. -/
theorem Points.head
    {tokens : Tokens}
    {pairs : List (Expr × Expr)}
    (derives : Points tokens pairs) :
    ∃ opening others, tokens = ⟨opening, .mark .openParen⟩ :: others := by
  cases derives with
  | last pointDerives _ | more pointDerives _ _ =>
      cases pointDerives
      exact ⟨_, _, rfl⟩

/-- An optional comma is skipped in front of a token other than a comma. -/
theorem OptionalComma.skip
    {comma : Tokens}
    (derives : OptionalComma comma)
    (rest : Tokens)
    (different : ∀ token ∈ rest.head?, token.item ≠ .mark .comma)
    (last : Option Position) :
    ∃ next, Cursor.skip ⟨comma ++ rest, last⟩ .comma = ⟨rest, next⟩ := by
  cases derives with
  | absent =>
      refine ⟨last, ?_⟩
      cases found : Cursor.at? ⟨rest, last⟩ .comma with
      | false => simp [Cursor.skip, found]
      | true =>
          obtain ⟨position, others, rfl⟩ := Cursor.at?_eq_true_iff.mp found
          exact absurd rfl (different _ rfl)
  | @present position =>
      exact ⟨some position,
        by simp [Cursor.skip, Cursor.at?, Cursor.peek?, Cursor.advance]⟩

/-- Points up to their closing brace. -/
theorem Points.complete
    {tokens : Tokens}
    {pairs : List (Expr × Expr)}
    (derives : Points tokens pairs)
    {depth : Nat}
    (enough : 8 * tokens.length ≤ depth)
    (last : Option Position) :
    Gives (Parse.points depth ⟨tokens ++ rest, last⟩) pairs rest := by
  induction derives generalizing depth last with
  | @last tokens comma pair closing pointDerives commaDerives =>
      simp only [List.length_append, List.length_singleton] at enough
      obtain ⟨fuel, rfl⟩ : ∃ fuel, depth = fuel + 1 := ⟨depth - 1, by omega⟩
      obtain ⟨afterOpening, afterX, afterComma, afterY, closed, opens, readsX,
        commaX, readsY,
        closes⟩ := pointDerives.reads (by omega : 8 * tokens.length ≤ fuel)
          (comma ++ ⟨closing, .mark .closeBrace⟩ :: rest) last
      obtain ⟨next, skips⟩ :=
        commaDerives.skip (⟨closing, .mark .closeBrace⟩ :: rest)
        (by rintro _ ⟨⟩; simp) closed
      refine ⟨some closing, ?_⟩
      rw [List.append_assoc, List.append_assoc, List.singleton_append,
        Parse.points]
      simp only [opens, readsX, commaX, readsY, closes, except_bind_ok, skips,
        Cursor.at?, Cursor.peek?, List.head?_cons, Option.map_some, decide_true,
        if_true, Cursor.advance]
      rfl
  | @more tokens comma others pair pairs pointDerives commaDerives othersDerive
      inductionHypothesis =>
      simp only [List.length_append] at enough
      have nonempty : 0 < tokens.length := by
        cases pointDerives
        simp
      obtain ⟨opening, more, shape⟩ := othersDerive.head
      have someOthers : 0 < others.length := by simp [shape]
      obtain ⟨fuel, rfl⟩ : ∃ fuel, depth = fuel + 1 := ⟨depth - 1, by omega⟩
      obtain ⟨afterOpening, afterX, afterComma, afterY, closed, opens, readsX,
        commaX, readsY,
        closes⟩ := pointDerives.reads (by omega : 8 * tokens.length ≤ fuel)
          (comma ++ (others ++ rest)) last
      obtain ⟨next, skips⟩ := commaDerives.skip (others ++ rest)
        (by rw [shape]; rintro _ ⟨⟩; simp) closed
      obtain ⟨final, readsOthers⟩ :=
        inductionHypothesis (by omega : 8 * others.length ≤ fuel) next
      have notClosed :
          Cursor.at? ⟨others ++ rest, next⟩ .closeBrace = false := by
        simp [shape, Cursor.at?, Cursor.peek?]
      have opened : Cursor.at? ⟨others ++ rest, next⟩ .openParen = true := by
        simp [shape, Cursor.at?, Cursor.peek?]
      refine ⟨final, ?_⟩
      rw [List.append_assoc, List.append_assoc, Parse.points]
      simp only [opens, readsX, commaX, readsY, closes, except_bind_ok, skips,
        notClosed, opened, Bool.false_eq_true, if_false, if_true, readsOthers]
      rfl

/-- Points are recognized by the comma in the first one. -/
theorem Points.startsPoint
    {tokens : Tokens}
    {pairs : List (Expr × Expr)}
    (derives : Points tokens pairs)
    {depth : Nat}
    (enough : 8 * tokens.length ≤ depth)
    (last : Option Position) :
    Parse.startsPoint depth ⟨tokens ++ rest, last⟩ = true := by
  obtain ⟨point, pair, others, shape, pointDerives⟩ :
      ∃ point pair others, tokens = point ++ others ∧ OnePoint point pair := by
    cases derives with
    | last pointDerives _ | more pointDerives _ _ =>
        exact ⟨_, _, _, List.append_assoc _ _ _, pointDerives⟩
  rw [shape, List.length_append] at enough
  obtain ⟨afterOpening, afterX, afterComma, -, -, opens, readsX, commaX, -,
      -⟩ :=
    pointDerives.reads (by omega : 8 * point.length ≤ depth)
      (others ++ rest) last
  have opened :
      Cursor.at? ⟨point ++ (others ++ rest), last⟩ .openParen = true := by
    cases pointDerives
    simp [Cursor.at?, Cursor.peek?]
  have advanced :
      Cursor.advance ⟨point ++ (others ++ rest), last⟩ = afterOpening := by
    simpa [Cursor.expect, opened] using opens
  have atComma : afterX.at? .comma = true := by
    obtain ⟨position, next⟩ := Cursor.of_expect commaX
    exact Cursor.at?_eq_true_iff.mpr ⟨position, _, next⟩
  rw [shape, List.append_assoc, Parse.startsPoint, opened, advanced, readsX]
  exact atComma

end Lists

/-- Subscripts start with a bracket. -/
theorem Derives.opens
    {tokens : Tokens}
    {trees : List Expr}
    (derives : Derives .subscripts tokens trees) :
    ∃ opening rest, tokens = ⟨opening, .mark .openBracket⟩ :: rest := by
  cases derives with
  | lastGroup | moreGroups => exact ⟨_, _, rfl⟩

/-- A statement that is read, up to what does not extend its last expression. -/
def IsRead (tokens : Tokens) (action : Action) : Prop :=
  ∀ (depth : Nat) (last : Option Position) (rest : Tokens),
    8 * tokens.length ≤ depth → Ends .expression rest →
      Gives (Parse.named depth ⟨tokens ++ rest, last⟩) action rest

section Forms

variable
  {name : String}
  {position equals opening closing : Position}

/-- A name and an equals sign come before a definition. -/
theorem named_assign
    (depth : Nat)
    (rest : Tokens)
    (last : Option Position) :
    Parse.named depth
      ⟨⟨position, .name name⟩ :: ⟨equals, .mark .assign⟩ :: rest, last⟩ =
      Parse.definition depth name ⟨rest, some equals⟩ :=
  rfl

theorem isRead_scalar
    {tokens : Tokens}
    {value : Expr}
    (derives : Derives .expression tokens [value]) :
    IsRead (⟨position, .name name⟩ :: ⟨equals, .mark .assign⟩ :: tokens)
      (.scalar name value) := by
  intro depth last rest enough ends
  simp only [List.length_cons] at enough
  obtain ⟨final, reads⟩ :=
    derives.gives (by omega : 8 * tokens.length ≤ depth + 1) ends (some equals)
  obtain ⟨⟨place, first⟩, others, rfl, starts⟩ := derives.head
  refine ⟨final, ?_⟩
  rw [List.cons_append, List.cons_append, named_assign, Parse.definition]
  split
  · rename_i brace
    cases brace
    cases starts
  · rename_i bracket
    cases bracket
    cases starts
  · rw [reads]
    rfl

theorem isRead_curve
    {tokens : Tokens}
    {pairs : List (Expr × Expr)}
    (derives : Points tokens pairs) :
    IsRead
      (⟨position, .name name⟩ :: ⟨equals, .mark .assign⟩ ::
        ⟨opening, .mark .openBrace⟩ :: tokens)
      (.curve name pairs) := by
  intro depth last rest enough ends
  simp only [List.length_cons] at enough
  have enoughForPoints : 8 * tokens.length ≤ depth := by omega
  obtain ⟨final, reads⟩ :
      Gives (Parse.points depth ⟨tokens ++ rest, some opening⟩) pairs rest :=
    derives.complete enoughForPoints (some opening)
  refine ⟨final, ?_⟩
  simp only [List.cons_append, named_assign, Parse.definition, Cursor.peek?,
    List.head?_cons, Option.map_some, Cursor.advance, Parse.braced,
    derives.startsPoint enoughForPoints (some opening), if_true, reads,
    except_bind_ok]
  rfl

theorem isRead_function
    {params : List String}
    {before after : Tokens}
    {body : Expr}
    (paramsDerive : Params before params)
    (bodyDerives : Derives .expression after [body]) :
    IsRead
      (⟨position, .name name⟩ :: ⟨opening, .mark .openParen⟩ :: before
        ++ ⟨closing, .mark .closeParen⟩ :: ⟨equals, .mark .assign⟩ :: after)
      (.function name params body) := by
  intro depth last rest enough ends
  simp only [List.length_cons, List.length_append] at enough
  obtain ⟨between, readsParams⟩ :=
    paramsDerive.complete (by omega : before.length ≤ depth)
      (ends_cons rfl : Ends .list
        (⟨closing, .mark .closeParen⟩ :: ⟨equals, .mark .assign⟩ ::
          (after ++ rest)))
      (some opening)
  obtain ⟨final, readsBody⟩ :=
    bodyDerives.gives (by omega : 8 * after.length ≤ depth + 1)
      ends (some equals)
  refine ⟨final, ?_⟩
  have opens :
      Parse.named depth
          ⟨(⟨position, .name name⟩ :: ⟨opening, .mark .openParen⟩ :: before
            ++ ⟨closing, .mark .closeParen⟩ :: ⟨equals, .mark .assign⟩ ::
              after) ++ rest, last⟩ =
        Parse.function depth name
          ⟨before ++ ⟨closing, .mark .closeParen⟩ :: ⟨equals, .mark .assign⟩ ::
            (after ++ rest), some opening⟩ := by
    simp only [List.append_assoc, List.cons_append]
    rfl
  rw [opens, Parse.function, readsParams, except_bind_ok]
  simp only [expect_cons, except_bind_ok, readsBody]
  rfl

/-- Subscripts and an equals sign come before the rest of a statement. -/
theorem named_subscripts
    {before : Tokens}
    {sizes : List Expr}
    (derives : Derives .subscripts before sizes)
    {depth : Nat}
    (enough : 8 * before.length ≤ depth)
    (after rest : Tokens)
    (last : Option Position) :
    Parse.named depth
        ⟨(⟨position, .name name⟩ :: before ++
            ⟨equals, .mark .assign⟩ :: after) ++ rest, last⟩ =
      match Cursor.peek? ⟨after ++ rest, some equals⟩ with
      | some (.mark .openBracket) => do
          let (items, cursor) ←
            Parse.initializer .closeBracket depth
              (Cursor.advance ⟨after ++ rest, some equals⟩)
          return (.array name (some sizes) items, cursor)
      | some (.mark .openBrace) => do
          let (contents, cursor) ←
            Parse.braced depth (Cursor.advance ⟨after ++ rest, some equals⟩)
          match contents with
          | .points _ => throw ⟨.sizedPoints, position⟩
          | .elements items => return (.array name (some sizes) items, cursor)
      | _ => do
          let (value, cursor) ← Parse.expression depth
            ⟨after ++ rest, some equals⟩
          return (.assign name sizes value, cursor) := by
  obtain ⟨between, reads⟩ :=
    derives.complete depth (some position)
      (⟨equals, .mark .assign⟩ :: (after ++ rest)) (by omega) (ends_cons rfl)
  obtain ⟨bracket, others, shape⟩ := derives.opens
  have opens :
      Parse.named depth
          ⟨(⟨position, .name name⟩ :: before ++
              ⟨equals, .mark .assign⟩ :: after) ++ rest, last⟩ =
        Parse.subscripted depth position name
          ⟨before ++ ⟨equals, .mark .assign⟩ :: (after ++ rest),
            some position⟩ := by
    rw [shape, List.append_assoc]
    rfl
  rw [opens, Parse.subscripted, reads, except_bind_ok]
  exact congrArg (· >>= _) (expect_cons ..)

theorem isRead_array
    {before after : Tokens}
    {sizes items : List Expr}
    (sizesDerive : Derives .subscripts before sizes)
    (itemsDerive : Elements .closeBracket after items) :
    IsRead
      (⟨position, .name name⟩ :: before ++ ⟨equals, .mark .assign⟩
        :: ⟨opening, .mark .openBracket⟩ :: after)
      (.array name (some sizes) items) := by
  intro depth last rest enough _
  simp only [List.length_cons, List.length_append] at enough
  obtain ⟨final, reads⟩ :=
    itemsDerive.initializer (.inl rfl) (by omega : 8 * after.length ≤ depth)
      rest (some opening)
  refine ⟨final, ?_⟩
  rw [named_subscripts sizesDerive (by omega)]
  simp only [List.cons_append, Cursor.peek?, List.head?_cons, Option.map_some,
    Cursor.advance, reads, except_bind_ok]
  rfl

end Forms

/-- Statements that are read one after the other, up to the end of the text. -/
inductive AllRead : Tokens → List Action → Prop where
  | done
      {position : Position} :
      AllRead [⟨position, .eof⟩] []
  | next
      {name : String}
      {position semicolon : Position}
      {tokens rest : Tokens}
      {action : Action}
      {actions : List Action}
      (first : IsRead (⟨position, .name name⟩ :: tokens) action)
      (others : AllRead rest actions) :
      AllRead (⟨position, .name name⟩ :: tokens ++
        ⟨semicolon, .mark .semicolon⟩ :: rest) (action :: actions)

/-- A statement with its semicolon. -/
theorem IsRead.statement
    {name : String}
    {position semicolon : Position}
    {tokens rest : Tokens}
    {action : Action}
    (isRead : IsRead (⟨position, .name name⟩ :: tokens) action)
    {depth : Nat}
    (enough : 8 * (tokens.length + 1) ≤ depth)
    (last : Option Position) :
    Gives
      (Parse.statement depth
        ⟨⟨position, .name name⟩ :: tokens ++
          ⟨semicolon, .mark .semicolon⟩ :: rest, last⟩)
      ⟨position, action⟩ rest := by
  obtain ⟨between, reads⟩ :=
    isRead depth last (⟨semicolon, .mark .semicolon⟩ :: rest) enough
      (ends_cons rfl)
  have notPrint :
      Cursor.peek?
          ⟨⟨position, .name name⟩ :: tokens ++
            ⟨semicolon, .mark .semicolon⟩ :: rest, last⟩ ≠
        some .print := by
    simp [Cursor.peek?]
  refine ⟨some semicolon, ?_⟩
  rw [Parse.statement]
  simp only [notPrint, if_false, reads, except_bind_ok, expect_cons]
  rfl

/-- One statement is read, and then the others. -/
theorem statements_of_statement
    {depth count : Nat}
    {cursor between : Cursor}
    {statement : Statement}
    {others : List Statement}
    (reads : Parse.statement depth cursor = .ok (statement, between))
    (readsOthers : Parse.statements depth count between = .ok others) :
    (do
      let (first, rest) ← Parse.statement depth cursor
      let more ← Parse.statements depth count rest
      return first :: more : Except SyntaxError (List Statement)) =
      .ok (statement :: others) := by
  rw [reads, except_bind_ok]
  simp only [readsOthers, except_bind_ok]
  rfl

/-- All statements of a text are read. -/
theorem AllRead.complete
    {tokens : Tokens}
    {actions : List Action}
    (allRead : AllRead tokens actions)
    {depth count : Nat}
    (enough : 8 * tokens.length ≤ depth)
    (enoughStatements : tokens.length ≤ count)
    (last : Option Position) :
    ∃ statements, Parse.statements depth count ⟨tokens, last⟩ = .ok statements ∧
      statements.map Statement.action = actions := by
  induction allRead generalizing count last with
  | @done position =>
      obtain ⟨fuel, rfl⟩ : ∃ fuel, count = fuel + 1 :=
        ⟨count - 1, by simp at enoughStatements; omega⟩
      exact ⟨[], rfl, rfl⟩
  | @next name position semicolon tokens rest action actions first others
        inductionHypothesis =>
      simp only [List.length_append,
        List.length_cons] at enough enoughStatements
      obtain ⟨fuel, rfl⟩ : ∃ fuel, count = fuel + 1 := ⟨count - 1, by omega⟩
      obtain ⟨between, reads⟩ :
          Gives
            (Parse.statement depth
              ⟨⟨position, .name name⟩ :: tokens ++
                ⟨semicolon, .mark .semicolon⟩ :: rest, last⟩)
            ⟨position, action⟩ rest :=
        first.statement (by omega) last
      obtain ⟨statements, readsOthers, sameActions⟩ :=
        inductionHypothesis (by omega) (by omega : rest.length ≤ fuel) between
      exact ⟨⟨position, action⟩ :: statements,
        statements_of_statement reads readsOthers, by simp [sameActions]⟩

/-- A text of statements without comments is read as a program. -/
theorem AllRead.program
    {tokens : Tokens}
    {actions : List Action}
    (allRead : AllRead tokens actions)
    (visible : ∀ token ∈ tokens, token.item.isComment = false) :
    ∃ statements, Parse.program tokens = .ok statements ∧
      statements.map Statement.action = actions := by
  have clean : Token.clean tokens = tokens := by
    rw [Token.clean, List.filter_eq_self]
    intro token member
    simp [visible token member]
  rw [Parse.program, Parse.start, clean, Parse.depthFor]
  exact allRead.complete (by omega) (by omega) none

end Grammar

end Formulary
